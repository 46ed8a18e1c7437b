import Homestead.Proofs.Varbyte
import Mathlib.Data.List.TakeWhile
import Mathlib.Tactic.NormNum

/-!
# `Homestead.Proofs.RoundTrip`: a record is read back as it was written

`decodeVarbyte_encodeVarbyte` of `Homestead.Proofs.Varbyte` delimits the size in front of any
bytes. `fromData_toData` then reads a record back from the bytes of `to_data`, as `Impu.toData` and
`ImpuData.fromData` do without the bytes: what a store of `Homestead.Model.ImpuStore` keeps of a
record is what its bytes keep.

The size of the text is an `unsigned int` in `to_data`. A text of 2^32 bytes or more is
therefore cut, and `fromData_of_cut` says that such a record is not read back.
-/

set_option autoImplicit false

namespace Homestead

/-! ### What the record has to be -/

/-- The text has no NUL. -/
def NoNul (s : String) : Prop := '\x00' ∉ s.toList

instance (s : String) : Decidable (NoNul s) := inferInstanceAs (Decidable (_ ∉ _))

/-- The number is an `int64_t`. -/
def IsInt64 (n : Int) : Prop := -2 ^ 63 ≤ n ∧ n < 2 ^ 63

instance (n : Int) : Decidable (IsInt64 n) := inferInstanceAs (Decidable (_ ∧ _))

/-- A default IMPU with a state that is stored, and text that C strings keep. -/
structure DefaultImpu.Storable (d : DefaultImpu) : Prop where
  registrationState : d.registrationState = .registered ∨ d.registrationState = .unregistered
  serviceProfile : NoNul d.serviceProfile
  associatedImpus : ∀ s ∈ d.associatedImpus, NoNul s
  impis : ∀ s ∈ d.impis, NoNul s
  ccfs : ∀ s ∈ d.chargingAddresses.ccfs, NoNul s
  ecfs : ∀ s ∈ d.chargingAddresses.ecfs, NoNul s
  expiry : IsInt64 d.expiry

structure AssociatedImpu.Storable (a : AssociatedImpu) : Prop where
  defaultImpu : NoNul a.defaultImpu
  expiry : IsInt64 a.expiry

def Impu.Storable : Impu → Prop
  | .default d => d.Storable
  | .associated a => a.Storable

structure ImpiMapping.Storable (m : ImpiMapping) : Prop where
  defaultImpus : ∀ s ∈ m.defaultImpus, NoNul s
  expiry : IsInt64 m.expiry

/-- The record under a key, with a CAS value and the store it is read from. -/
def Impu.readAt (impu : Impu) (key : String) (cas : Nat) (store : StoreId) : Impu :=
  match impu with
  | .default d => .default { d with impu := key, cas := cas, store := some store }
  | .associated a => .associated { a with impu := key, cas := cas, store := some store }

/-- What the store keeps of a record is the record. -/
theorem Impu.fromData_toData {impu : Impu} (h : impu.Storable) (key : String) (cas : Nat)
    (store : StoreId) : impu.toData.fromData key cas store = impu.readAt key cas store := by
  cases impu with
  | default d =>
    have hstate : (if decide (d.registrationState = .registered) = true then
        RegistrationState.registered else .unregistered) = d.registrationState := by
      rcases h.registrationState with hd | hd <;> simp [hd]
    simp only [Impu.toData, DefaultImpu.toData, ImpuData.fromData, DefaultImpuData.fromData,
      Impu.readAt, hstate]
  | associated a => rfl

theorem cString_of_noNul {s : String} (h : NoNul s) : cString s = s := by
  have hall : s.toList.takeWhile (· ≠ '\x00') = s.toList := by
    rw [List.takeWhile_eq_self_iff]
    intro c hc
    simp only [ne_eq, decide_eq_true_eq]
    rintro rfl
    exact h hc
  rw [cString, hall, String.ofList_toList]

theorem cBytes_of_noNul {data : Bytes} (h : 0 ∉ data) : cBytes data = data := by
  rw [cBytes, List.takeWhile_eq_self_iff]
  intro b hb
  simp only [ne_eq, decide_eq_true_eq]
  rintro rfl
  exact h hb

namespace Codec

variable {x : Codec}

theorem ReadsBack.jsonText {members : Members} (h : x.ReadsBack members) :
    x.jsonText members = x.write members :=
  cBytes_of_noNul h.noNul

/-! ### JSON -/

/-- The parsed text of a record is the record. The kind is told by the `default_impu` member,
which only an associated IMPU has. -/
theorem fromText_write (hx : x.Lawful) {impu : Impu} (h : impu.Storable)
    (hread : x.ReadsBack (x.writeImpu impu)) (key : String) (cas : Nat) (store : StoreId) :
    x.fromText key (x.write (x.writeImpu impu)) cas store
      = .ok (some (impu.readAt key cas store)) := by
  unfold fromText
  rw [cBytes_of_noNul hread.noNul, hread.parse_write]
  cases impu with
  | default d =>
    -- No member of a default IMPU is named `default_impu`.
    have hbool := hx.getBool (x.writeDefault d) "registration_state" _ rfl
    have hexpiry := hx.getInt64 (x.writeDefault d) "expiry" _ 0 h.expiry.1 h.expiry.2 rfl
    have hprofile := hx.getString (x.writeDefault d) "service_profile" _ "" rfl
    have hassoc := hx.extractStringArray (x.writeDefault d) "assoc_impu" _ h.associatedImpus rfl
    have himpis := hx.extractStringArray (x.writeDefault d) "impis" _ h.impis rfl
    have hecfs := hx.extractStringArray (x.writeDefault d) "ecfs" _ h.ecfs rfl
    have hccfs := hx.extractStringArray (x.writeDefault d) "ccfs" _ h.ccfs rfl
    rw [cString_of_noNul h.serviceProfile] at hprofile
    have hdefault : x.defaultFromJson key (.object (x.writeDefault d)) cas store
        = .ok { d with impu := key, cas := cas, store := some store } := by
      unfold defaultFromJson
      rw [hbool, hexpiry, hprofile, hassoc, himpis, hecfs, hccfs]
      rcases h.registrationState with hd | hd <;> simp [hd]
    show (x.defaultFromJson key (.object (x.writeDefault d)) cas store >>= _) = _
    rw [hdefault]
    rfl
  | associated a =>
    have hdefault := hx.getString (writeAssociated a) "default_impu" _ "" rfl
    have hexpiry := hx.getInt64 (writeAssociated a) "expiry" _ 0 h.expiry.1 h.expiry.2 rfl
    rw [cString_of_noNul h.defaultImpu] at hdefault
    show Except.ok (some (Impu.associated
      (x.associatedFromJson key (.object (writeAssociated a)) cas store))) = _
    unfold associatedFromJson
    rw [hdefault, hexpiry]
    rfl

/-! ### Compression -/

/-- The loop answers nothing, or what LZ4 answers for some size of the buffer. -/
theorem compressLoop_cases (data : Bytes) (bufferLength : Nat) (hpos : 0 < bufferLength) :
    x.compressLoop data bufferLength hpos = [] ∨
      ∃ capacity, x.compress dictV0 (source data) capacity ≠ [] ∧
        x.compressLoop data bufferLength hpos = x.compress dictV0 (source data) capacity := by
  fun_induction compressLoop x data bufferLength hpos with
  | case1 bufferLength hpos compressed hempty hmax => exact .inl rfl
  | case2 bufferLength hpos compressed hempty hmax ih => exact ih
  | case3 bufferLength hpos compressed hne => exact .inr ⟨bufferLength, hne, rfl⟩

theorem length_source (data : Bytes) : (source data).length = data.length % 2 ^ 32 := by
  rw [source, List.length_take]
  omega

/-- Data of an `unsigned int` size is compressed as a whole. -/
theorem source_eq {data : Bytes} (h : data.length < 2 ^ 32) : source data = data := by
  rw [source, Nat.mod_eq_of_lt h, List.take_length]

/-- `from_data` on the bytes of `to_data` goes on with what LZ4 was given. Without any byte of
it, the size that is read is that of the empty token. -/
theorem fromData_of_toData (hx : x.Lawful) {impu : Impu} {b : Bytes}
    (hb : x.toData impu = (.ok, b)) (key : String) (cas : Nat) (store : StoreId) :
    x.fromData key b cas store =
      if source (x.jsonText (x.writeImpu impu)) = [] then .ok none
      else x.fromText key (source (x.jsonText (x.writeImpu impu))) cas store := by
  unfold toData at hb
  generalize x.jsonText (x.writeImpu impu) = json at hb ⊢
  have hne : x.compressDataV0 json ≠ [] := by
    intro hempty
    simp [hempty] at hb
  simp only [hne, if_false, Prod.mk.injEq, true_and] at hb
  obtain hempty | ⟨capacity, hcompress, heq⟩ := compressLoop_cases (x := x) json 2048 (by decide)
  · exact absurd hempty hne
  rw [compressDataV0, heq, ← length_source] at hb
  have hle := hx.source_le dictV0 _ capacity hcompress
  have hinflate := hx.decompress_compress dictV0 _ capacity hcompress
  by_cases hsrc : source json = []
  · -- Nothing is compressed: the bytes are the version and the empty token.
    rw [hsrc, hx.compress_nil dictV0 capacity (hsrc ▸ hcompress), List.length_nil,
      encodeVarbyte_zero] at hb
    rw [if_pos hsrc, ← hb]
    have hdecode : decodeVarbyte [0, 0] 1 = (0, 2) := by
      unfold decodeVarbyte
      rw [decodeVarbyteLoop]
      decide
    simp [fromData, hdecode]
  · -- LZ4 takes no source of 2^31 bytes, so the size is never taken for a corrupt one.
    have hpos : 0 < (source json).length := List.length_pos_iff.mpr hsrc
    have hmax : (source json).length < intMax := by unfold intMax; omega
    have hdecode := decodeVarbyte_encodeVarbyte hpos hmax [0]
      (x.compress dictV0 (source json) capacity)
    rw [if_neg hsrc, ← hb]
    simp only [List.singleton_append, List.length_singleton] at hdecode
    have hdrop : (0 :: (encodeVarbyte (source json).length ++
        x.compress dictV0 (source json) capacity)).drop (1 + (encodeVarbyte (source json).length).length)
        = x.compress dictV0 (source json) capacity := by
      rw [Nat.add_comm, List.drop_succ_cons, List.drop_left]
    simp [fromData, hdecode, hdrop, hinflate, hsrc]

/-- A text of an `unsigned int` size is read back. -/
theorem fromData_toData (hx : x.Lawful) {impu : Impu} (h : impu.Storable)
    (hread : x.ReadsBack (x.writeImpu impu)) {b : Bytes} (hb : x.toData impu = (.ok, b))
    (hsize : (x.jsonText (x.writeImpu impu)).length < 2 ^ 32) (key : String) (cas : Nat)
    (store : StoreId) :
    x.fromData key b cas store = .ok (some (impu.readAt key cas store)) := by
  rw [fromData_of_toData hx hb, source_eq hsize, hread.jsonText]
  have hne : x.write (x.writeImpu impu) ≠ [] := by
    intro hempty
    have hparse := hread.parse_write
    rw [hempty, hx.parse_nil] at hparse
    cases hparse
  rw [if_neg hne, fromText_write hx h hread]

/-- A longer text is cut, and what is left of it is not a document. -/
theorem fromData_of_cut (hx : x.Lawful) {impu : Impu} (hread : x.ReadsBack (x.writeImpu impu))
    {b : Bytes} (hb : x.toData impu = (.ok, b))
    (hsize : 2 ^ 32 ≤ (x.jsonText (x.writeImpu impu)).length) (key : String) (cas : Nat)
    (store : StoreId) : x.fromData key b cas store = .ok none := by
  rw [fromData_of_toData hx hb]
  split
  · rfl
  · -- Its source is a proper beginning of the text.
    rw [hread.jsonText] at hsize ⊢
    have hcut : source (x.write (x.writeImpu impu)) <+: x.write (x.writeImpu impu) :=
      List.take_prefix _ _
    have hshort : source (x.write (x.writeImpu impu)) ≠ x.write (x.writeImpu impu) := by
      intro heq
      have hlen := length_source (x.write (x.writeImpu impu))
      rw [heq] at hlen
      omega
    have hnul : 0 ∉ source (x.write (x.writeImpu impu)) := fun h => hread.noNul (hcut.subset h)
    unfold fromText
    rw [cBytes_of_noNul hnul, hread.parse_beginning _ hcut hshort]

/-- A mapping is read back from its text. -/
theorem mappingFromData_toData (hx : x.Lawful) {m : ImpiMapping} (h : m.Storable)
    (hread : x.ReadsBack (x.writeMapping m)) (impi : String) (cas : Nat) :
    x.mappingFromData impi (x.mappingToData m).2 cas = some { m with impi := impi, cas := cas } := by
  have himpus := hx.extractStringArray (x.writeMapping m) "default_impus" _ h.defaultImpus rfl
  have hexpiry := hx.getInt64 (x.writeMapping m) "expiry" _ 0 h.expiry.1 h.expiry.2 rfl
  unfold mappingFromData mappingToData
  rw [hread.jsonText, cBytes_of_noNul hread.noNul, hread.parse_write]
  show some (x.mappingFromJson impi (.object (x.writeMapping m)) cas) = _
  unfold mappingFromJson
  rw [himpus, hexpiry]

/-! ### A codec for plain text

It is for concrete inputs: it writes JSON text without escapes, reads back the text of one
object, and compresses one source, as a block of literals. -/

/-- The bytes of a text of single-byte characters. -/
def plainBytes (s : String) : Bytes := s.toList.map fun c => UInt8.ofNat c.toNat

/-- The elements of an array or an object, with commas between them. -/
def commas : List Bytes → Bytes
  | [] => []
  | [b] => b
  | b :: bs => b ++ 44 :: commas bs

def quoted (s : String) : Bytes := 34 :: plainBytes s ++ [34]

/-- The text of a value that is not an array or an object. -/
def scalarText : Json → Bytes
  | .bool b => plainBytes (if b then "true" else "false")
  | .int64 n => plainBytes (toString n)
  | .string s => quoted s
  | _ => plainBytes "null"

/-- The text of a value that is not nested further. -/
def valueText : Json → Bytes
  | .array elements => 91 :: commas (elements.map scalarText) ++ [93]
  | value => scalarText value

def memberText (m : String × Json) : Bytes := quoted m.1 ++ 58 :: valueText m.2

/-- The text of an object. -/
def objectText (members : Members) : Bytes := 123 :: commas (members.map memberText) ++ [125]

/-- An LZ4 block of literals: the token, the rest of the length, and the literals. -/
def lz4Literals (src : Bytes) : Bytes :=
  if src.length < 15 then UInt8.ofNat (src.length * 16) :: src
  else 0xf0 :: List.replicate ((src.length - 15) / 255) 255 ++
    UInt8.ofNat ((src.length - 15) % 255) :: src

def stringOf : Json → Option String
  | .string s => some s
  | _ => none

/-- The member of that name, if the value is an object that has one. -/
def member? (json : Json) (name : String) : Option Json :=
  match json with
  | .object members => members.lookup name
  | _ => none

/-- The codec that knows the object `members` and compresses `known`. -/
def plain (members : Members) (known : Bytes) : Codec where
  write := objectText
  parse text := if text = objectText members then some (.object members) else none
  stringArray xs := .array (xs.map .string)
  extractStringArray json name :=
    match member? json name with
    | some (.array elements) => elements.filterMap stringOf
    | _ => []
  getString json name initial := ((member? json name).bind stringOf).getD initial
  getInt64 json name initial :=
    match member? json name with
    | some (.int64 n) => n
    | _ => initial
  getBool json name :=
    match member? json name with
    | some (.bool b) => some b
    | _ => none
  compress _ src capacity :=
    if (src = [] ∨ src = known) ∧ (lz4Literals src).length ≤ capacity then lz4Literals src else []
  decompress _ block _ :=
    if block = lz4Literals [] then some []
    else if block = lz4Literals known then some known else none

theorem lz4Literals_inj {src : Bytes} (h : lz4Literals src = lz4Literals []) : src = [] := by
  have hlen := congrArg List.length h
  unfold lz4Literals at hlen
  split at hlen
  · simpa using hlen
  · simp at hlen

theorem plain_lawful (members : Members) {known : Bytes} (h : known.length ≤ 0x7E000000) :
    (plain members known).Lawful where
  parse_nil := by simp [plain, objectText]
  decompress_compress dict src capacity hne := by
    simp only [plain] at hne ⊢
    split at hne
    · rename_i hsrc
      rw [if_pos hsrc]
      -- The source is empty or the known one, and both are a block of literals.
      rcases hsrc.1 with rfl | rfl
      · simp
      · split
        · rename_i heq
          rw [lz4Literals_inj heq]
        · simp
    · exact absurd rfl hne
  source_le dict src capacity hne := by
    simp only [plain] at hne
    split at hne
    · rename_i hsrc
      rcases hsrc.1 with rfl | rfl
      · simp
      · exact h
    · exact absurd rfl hne
  compress_nil dict capacity hne := by
    simp only [plain] at hne ⊢
    split at hne
    · rename_i hsrc
      rw [if_pos hsrc]
      rfl
    · exact absurd rfl hne
  extractStringArray members' name xs _ hlookup := by
    have hmap : (xs.map Json.string).filterMap stringOf = xs := by
      rw [List.filterMap_map]
      exact List.filterMap_some
    simp only [plain, member?] at hlookup ⊢
    rw [hlookup]
    exact hmap
  getString members' name s initial hlookup := by simp [plain, member?, hlookup, stringOf]
  getInt64 members' name n initial _ _ hlookup := by simp [plain, member?, hlookup]
  getBool members' name b hlookup := by simp [plain, member?, hlookup]

theorem plain_readsBack {members : Members} (known : Bytes) (h : 0 ∉ objectText members) :
    (plain members known).ReadsBack members where
  noNul := h
  parse_write := by simp [plain]
  parse_beginning text _ hne := by
    have hne : text ≠ objectText members := hne
    simp [plain, hne]

/-- The codec that knows one record. -/
def plainFor (impu : Impu) : Codec :=
  plain ((plain [] []).writeImpu impu) (source (objectText ((plain [] []).writeImpu impu)))

theorem plainFor_writeImpu (impu : Impu) :
    (plainFor impu).writeImpu impu = (plain [] []).writeImpu impu := by
  cases impu <;> rfl

/-- The known record is compressed when its block of literals fits the first buffer. -/
theorem plainFor_toData {impu : Impu} (hnul : 0 ∉ objectText ((plain [] []).writeImpu impu))
    (hsize : (lz4Literals (source (objectText ((plain [] []).writeImpu impu)))).length ≤ 2048) :
    ∃ b, (plainFor impu).toData impu = (.ok, b) := by
  have hread : (plainFor impu).ReadsBack ((plainFor impu).writeImpu impu) := by
    rw [plainFor_writeImpu]
    exact plain_readsBack _ hnul
  have hne : (plainFor impu).compressDataV0 ((plainFor impu).jsonText ((plainFor impu).writeImpu impu))
      ≠ [] := by
    rw [hread.jsonText, plainFor_writeImpu, compressDataV0, compressLoop]
    have hcompress : (plainFor impu).compress dictV0
        (source ((plainFor impu).write ((plain [] []).writeImpu impu))) 2048
        = lz4Literals (source (objectText ((plain [] []).writeImpu impu))) :=
      if_pos ⟨.inr rfl, hsize⟩
    have hblock : ∀ src : Bytes, lz4Literals src ≠ [] := by
      intro src
      unfold lz4Literals
      split <;> simp
    simp only [hcompress, hblock, if_false]
    exact hblock _
  unfold toData
  simp only [hne, if_false]
  exact ⟨_, rfl⟩

/-! ### The round trip -/

/-- A record that `to_data` encodes is read back, as the same kind with the same fields, if and
only if its JSON text is shorter than 2^32 bytes. A mapping is always read back. -/
theorem impu_round_trip_iff (x : Codec) (hx : x.Lawful) :
    (∀ impu : Impu, impu.Storable → x.ReadsBack (x.writeImpu impu) →
      ∀ (key : String) (cas : Nat) (store : StoreId) (b : Bytes), x.toData impu = (.ok, b) →
        (x.fromData key b cas store = .ok (some (impu.readAt key cas store))
          ↔ (x.jsonText (x.writeImpu impu)).length < 2 ^ 32)) ∧
      ∀ m : ImpiMapping, m.Storable → x.ReadsBack (x.writeMapping m) →
        ∀ (impi : String) (cas : Nat) (b : Bytes), x.mappingToData m = (.ok, b) →
          x.mappingFromData impi b cas = some { m with impi := impi, cas := cas } := by
  constructor
  · intro impu h hread key cas store b hb
    constructor
    · intro hback
      by_contra hsize
      rw [fromData_of_cut hx hread hb (Nat.le_of_not_lt hsize)] at hback
      cases hback
    · exact fun hsize => fromData_toData hx h hread hb hsize key cas store
  · intro m h hread impi cas b hb
    obtain rfl : (x.mappingToData m).2 = b := by rw [hb]
    exact mappingFromData_toData hx h hread impi cas

/-- A subscriber with an alias, as it is stored. -/
def exampleImpu : Impu :=
  .default
    { impu := "sip:d@example.com", associatedImpus := ["tel:5550100"],
      impis := ["d@example.com"], registrationState := .unregistered,
      chargingAddresses := { ccfs := ["ccf1", "ccf2"], ecfs := ["ecf1"] },
      serviceProfile := "profile", cas := 0, expiry := 100, store := none }

def exampleMapping : ImpiMapping :=
  { impi := "d@example.com", cas := 0, expiry := 100, defaultImpus := ["sip:d@example.com"] }

/-- The codec that knows the mapping of the example. -/
def exampleMappingCodec : Codec := plain ((plain [] []).writeMapping exampleMapping) []

theorem impu_round_trip_iff_example :
    (∃ b, (plainFor exampleImpu).toData exampleImpu = (.ok, b) ∧
      (plainFor exampleImpu).fromData "sip:d@example.com" b 7 0
        = .ok (some (exampleImpu.readAt "sip:d@example.com" 7 0))) ∧
      ∃ b, exampleMappingCodec.mappingToData exampleMapping = (.ok, b) ∧
        exampleMappingCodec.mappingFromData "d@example.com" b 7
          = some { exampleMapping with impi := "d@example.com", cas := 7 } := by
  have hnul : 0 ∉ objectText ((plain [] []).writeImpu exampleImpu) := by decide +kernel
  have hlength : (objectText ((plain [] []).writeImpu exampleImpu)).length < 2 ^ 32 := by
    decide +kernel
  have hlaw : (plainFor exampleImpu).Lawful := by
    refine plain_lawful _ ?_
    rw [source_eq hlength]
    decide +kernel
  have hread : (plainFor exampleImpu).ReadsBack ((plainFor exampleImpu).writeImpu exampleImpu) :=
    plain_readsBack _ hnul
  obtain ⟨b, hb⟩ := plainFor_toData hnul (by rw [source_eq hlength]; decide +kernel)
  refine ⟨⟨b, hb, ?_⟩, _, rfl, ?_⟩
  · refine ((impu_round_trip_iff _ hlaw).1 exampleImpu ?_ hread _ 7 0 b hb).mpr ?_
    · exact ⟨.inr rfl, by decide, by decide, by decide, by decide, by decide, by decide⟩
    · rw [hread.jsonText]
      exact hlength
  · exact (impu_round_trip_iff exampleMappingCodec (plain_lawful _ (by decide))).2 exampleMapping
      ⟨by decide, by decide⟩ (plain_readsBack _ (by decide +kernel)) _ 7 _ rfl

/-! A record whose text is too long: one associated IMPU, 2^26 times. -/

/-- An IMPU of 61 characters, which take 64 bytes of text as one of several elements. -/
def longImpu : String := "sip:a-subscriber-with-a-rather-long-identity@long.example.com"

def repeatedImpu (n : Nat) : Impu :=
  .default
    { impu := "sip:d@example.com", associatedImpus := List.replicate n longImpu,
      impis := ["d@example.com"], registrationState := .registered, chargingAddresses := {},
      serviceProfile := "profile", cas := 0, expiry := 100, store := none }

theorem length_commas (b : Bytes) (bs : List Bytes) :
    (commas (b :: bs)).length + 1 = ((b :: bs).map (·.length + 1)).sum := by
  induction bs generalizing b with
  | nil => simp [commas]
  | cons c bs ih =>
    have hc := ih c
    simp only [commas, List.length_append, List.length_cons, List.map_cons, List.sum_cons] at hc ⊢
    omega

theorem not_mem_commas {bs : List Bytes} (h : ∀ b ∈ bs, 0 ∉ b) : 0 ∉ commas bs := by
  induction bs with
  | nil => simp [commas]
  | cons b bs ih =>
    have hb := h b List.mem_cons_self
    have hbs := ih fun c hc => h c (List.mem_cons_of_mem _ hc)
    cases bs with
    | nil => exact hb
    | cons c bs => simp [commas, hb, hbs]

/-- The members of the record before and after the associated IMPUs. -/
def repeatedBefore : Members :=
  [("registration_state", .bool true), ("service_profile", .string "profile"),
   ("expiry", .int64 100)]

def repeatedAfter : Members :=
  [("impis", .array [.string "d@example.com"]), ("ecfs", .array []), ("ccfs", .array [])]

def repeatedMember (n : Nat) : String × Json :=
  ("assoc_impu", .array ((List.replicate n longImpu).map .string))

theorem writeImpu_repeatedImpu (n : Nat) : (plain [] []).writeImpu (repeatedImpu n)
    = repeatedBefore ++ repeatedMember n :: repeatedAfter := by
  have hprofile : cString "profile" = "profile" := cString_of_noNul (by decide)
  simp only [writeImpu, repeatedImpu, writeDefault, hprofile]
  rfl

theorem length_repeatedMember (n : Nat) :
    (memberText (repeatedMember (n + 1))).length = 64 * n + 78 := by
  have hcommas := length_commas (quoted longImpu) (List.replicate n (quoted longImpu))
  have hquoted : (quoted longImpu).length = 63 := by decide +kernel
  have hname : (quoted "assoc_impu").length = 12 := by decide +kernel
  have helements : ((List.replicate (n + 1) longImpu).map Json.string).map scalarText
      = quoted longImpu :: List.replicate n (quoted longImpu) := by
    rw [List.map_map, List.map_replicate, List.replicate_succ]
    rfl
  rw [List.map_cons, List.map_replicate, List.sum_cons, List.sum_replicate_nat, hquoted] at hcommas
  rw [memberText, repeatedMember, valueText, helements, List.length_append, hname, List.length_cons,
    List.length_append, List.length_cons]
  simp only [List.length_cons, List.length_nil]
  omega

/-- The text of the whole record is 129 bytes and 64 for each associated IMPU. -/
theorem length_repeatedImpu {n : Nat} (h : 0 < n) :
    (objectText ((plain [] []).writeImpu (repeatedImpu n))).length = 64 * n + 129 := by
  obtain ⟨k, rfl⟩ := Nat.exists_eq_add_of_lt h
  rw [Nat.zero_add]
  have hcommas := length_commas (memberText ("registration_state", .bool true))
    ((repeatedBefore.tail ++ repeatedMember (k + 1) :: repeatedAfter).map memberText)
  have hfirst : (memberText ("registration_state", .bool true)).length = 25 := by decide +kernel
  have hbefore : ((repeatedBefore.tail.map memberText).map (·.length + 1)).sum = 41 := by
    decide +kernel
  have hafter : ((repeatedAfter.map memberText).map (·.length + 1)).sum = 46 := by decide +kernel
  have hmembers : ((plain [] []).writeImpu (repeatedImpu (k + 1))).map memberText
      = memberText ("registration_state", .bool true) ::
        (repeatedBefore.tail ++ repeatedMember (k + 1) :: repeatedAfter).map memberText := by
    rw [writeImpu_repeatedImpu]
    rfl
  rw [objectText, hmembers, List.length_append, List.length_cons, hcommas]
  simp only [List.map_append, List.map_cons, List.sum_append, List.sum_cons, hbefore, hafter,
    hfirst, length_repeatedMember, List.length_cons, List.length_nil]
  omega

/-- Every member of the record is text without NUL. -/
theorem noNul_repeatedImpu (n : Nat) : 0 ∉ objectText ((plain [] []).writeImpu (repeatedImpu n)) := by
  have hquoted : 0 ∉ quoted longImpu := by decide +kernel
  have hname : 0 ∉ quoted "assoc_impu" := by decide +kernel
  have hbefore : ∀ m ∈ repeatedBefore, 0 ∉ memberText m := by
    simp only [repeatedBefore, List.forall_mem_cons]
    decide +kernel
  have hafter : ∀ m ∈ repeatedAfter, 0 ∉ memberText m := by
    simp only [repeatedAfter, List.forall_mem_cons]
    decide +kernel
  have helements : 0 ∉ commas (((List.replicate n longImpu).map Json.string).map scalarText) := by
    refine not_mem_commas fun b hb => ?_
    rw [List.map_map, List.map_replicate] at hb
    rw [List.eq_of_mem_replicate hb]
    exact hquoted
  have hmember : 0 ∉ memberText (repeatedMember n) := by
    simp only [memberText, repeatedMember, valueText, List.cons_append, List.mem_append,
      List.mem_cons, hname, helements]
    decide
  have hmembers :
      0 ∉ commas ((repeatedBefore ++ repeatedMember n :: repeatedAfter).map memberText) := by
    refine not_mem_commas fun b hb => ?_
    obtain ⟨m, hm, rfl⟩ := List.mem_map.mp hb
    rcases List.mem_append.mp hm with hm | hm
    · exact hbefore m hm
    · rcases List.mem_cons.mp hm with rfl | hm
      · exact hmember
      · exact hafter m hm
  rw [writeImpu_repeatedImpu]
  simp only [objectText, List.cons_append, List.mem_append, List.mem_cons, hmembers]
  decide

theorem storable_repeatedImpu (n : Nat) : (repeatedImpu n).Storable := by
  have hlong : NoNul longImpu := by decide +kernel
  have hprofile : NoNul "profile" := by decide
  have himpis : ∀ s ∈ ["d@example.com"], NoNul s := by decide
  have hexpiry : IsInt64 100 := by decide
  refine ⟨.inl rfl, hprofile, fun s hs => ?_, himpis, ?_, ?_, hexpiry⟩
  · rw [List.eq_of_mem_replicate hs]
    exact hlong
  · exact List.forall_mem_nil _
  · exact List.forall_mem_nil _

/-- A text that is cut to a length that fits the first buffer is stored and not read back. -/
theorem repeatedImpu_cut {n : Nat} (hcut : 2 ^ 32 ≤ 64 * n + 129)
    (hfits : (64 * n + 129) % 2 ^ 32 ≤ 1000) :
    (plainFor (repeatedImpu n)).Lawful ∧ (repeatedImpu n).Storable ∧
      (plainFor (repeatedImpu n)).ReadsBack
        ((plainFor (repeatedImpu n)).writeImpu (repeatedImpu n)) ∧
      ∃ b, (plainFor (repeatedImpu n)).toData (repeatedImpu n) = (.ok, b) ∧
        (plainFor (repeatedImpu n)).fromData "sip:d@example.com" b 7 0 = .ok none := by
  have hlength := length_repeatedImpu (show 0 < n by omega)
  have hnul := noNul_repeatedImpu n
  have hsource : (source (objectText ((plain [] []).writeImpu (repeatedImpu n)))).length ≤ 1000 := by
    rw [length_source, hlength]
    exact hfits
  have hlaw : (plainFor (repeatedImpu n)).Lawful := plain_lawful _ (by omega)
  have hread : (plainFor (repeatedImpu n)).ReadsBack
      ((plainFor (repeatedImpu n)).writeImpu (repeatedImpu n)) := plain_readsBack _ hnul
  have hblock : ∀ src : Bytes, src.length ≤ 1000 → (lz4Literals src).length ≤ 2048 := by
    intro src hsrc
    unfold lz4Literals
    split
    · simp only [List.length_cons]
      omega
    · simp only [List.length_append, List.length_cons, List.length_replicate]
      omega
  obtain ⟨b, hb⟩ := plainFor_toData hnul (hblock _ hsource)
  refine ⟨hlaw, storable_repeatedImpu n, hread, b, hb, fromData_of_cut hlaw hread hb ?_ _ _ _⟩
  rw [hread.jsonText]
  exact Nat.le_trans hcut (Nat.le_of_eq hlength.symm)

/-- The text of the record with one associated IMPU 2^26 times has 2^32 + 129 bytes. Its first
129 bytes are compressed and stored, `to_data` answers `OK`, and `from_data` reads nothing. -/
theorem impu_round_trip_cut :
    let impu := repeatedImpu (2 ^ 26)
    let x := plainFor impu
    x.Lawful ∧ impu.Storable ∧ x.ReadsBack (x.writeImpu impu) ∧
      ∃ b, x.toData impu = (.ok, b) ∧ x.fromData "sip:d@example.com" b 7 0 = .ok none :=
  repeatedImpu_cut (by norm_num) (by norm_num)

end Codec

end Homestead
