import Homestead.Model.ImpuStore
import Mathlib.Algebra.Group.Nat.Defs
import Mathlib.Algebra.Group.Int.Defs

/-!
# `Homestead.Model.ImpuCodec`: the bytes of a record

The byte level of `src/impu_store.cpp`: `encode_varbyte` and `decode_varbyte`, `Impu::to_data`
and `Impu::from_data` with their `write_json` and `from_json`, and the same four of
`ImpiMapping`. A record is stored as a version byte, the size of its JSON text in groups of
seven bits, and the text compressed with a dictionary. A mapping is stored as its JSON text.

rapidjson, the helpers of `json_parse_utils.h` and LZ4 are not part of the repository. `Codec`
takes them as they are called, and `Codec.Lawful` and `Codec.ReadsBack` are what the code
relies on: the first for LZ4 and the helpers, the second for the text of one object.
-/

set_option autoImplicit false

namespace Homestead

/-- The contents of a `std::string` that holds data. -/
abbrev Bytes := List UInt8

/-- What a C string keeps of its contents, here of text. -/
def cString (s : String) : String := String.ofList (s.toList.takeWhile (· ≠ '\x00'))

/-- What a C string keeps of its contents, here of data. -/
def cBytes (data : Bytes) : Bytes := data.takeWhile (· ≠ 0)

/-! ### The size of the uncompressed text -/

def intMax : Nat := 2 ^ 31 - 1

/-- `encode_varbyte`. The size 0 has no byte. -/
def encodeVarbyte (uncompSize : Nat) : Bytes :=
  if uncompSize = 0 then []
  else
    let sizeByte := uncompSize &&& 0x7f
    let rest := uncompSize >>> 7
    -- The high bit says that more bytes follow.
    UInt8.ofNat (if rest > 0 then sizeByte ||| 0x80 else sizeByte) :: encodeVarbyte rest
termination_by uncompSize
decreasing_by
  rw [Nat.shiftRight_eq_div_pow]
  omega

/-- `bits << (7*i)`, which is an `int`, as an operand of the 64-bit `|=`. A shift beyond the
width of an `int` has no defined value in C++, and no encoded size leads to one. -/
def shiftedBits (bits i : Nat) : Nat := ((Int.bmod (bits <<< (7 * i)) (2 ^ 32)) % 2 ^ 64).toNat

/-- The loop of `decode_varbyte`. It answers the final values of `length`, `offset` and
`done`. Reading one past the end of a `std::string` gives the byte 0. -/
def decodeVarbyteLoop (data : Bytes) (offset i length : Nat) : Nat × Nat × Bool :=
  let byte := (data.getD offset 0).toNat
  let length := length ||| shiftedBits (byte &&& 0x7f) i
  let done := byte &&& 0x80 = 0
  if ¬ done ∧ length < intMax ∧ offset + 1 < data.length then
    decodeVarbyteLoop data (offset + 1) (i + 1) length
  else (length, offset + 1, done)
termination_by data.length - offset

/-- `decode_varbyte`: the size, with 0 for a corrupt one, and the offset after it. -/
def decodeVarbyte (data : Bytes) (offset : Nat) : Nat × Nat :=
  let (length, offset, done) := decodeVarbyteLoop data offset 0 0
  if ¬ done ∨ length ≥ intMax then (0, offset) else (length, offset)

/-- The low 32 bits of a number, as an `int` that is an operand of the 64-bit `|=`. -/
def intOperand (n : Int) : Nat := (Int.bmod n (2 ^ 32) % 2 ^ 64).toNat

/-- What a machine gives for `bits << (7*i)` when the shift is as wide as an `int` or wider. C++
defines no value for it, and the processors differ. On all of them 0 stays 0. -/
structure Overshift where
  value : Nat → Nat → Int
  value_zero : ∀ i, value 0 i = 0

/-- All the bits are lost. -/
def Overshift.lost : Overshift where
  value _ _ := 0
  value_zero _ := rfl

/-- Only the low five bits of the width count, as on an x86 processor. -/
def Overshift.masked : Overshift where
  value bits i := bits <<< (7 * i % 32)
  value_zero i := by simp

/-- `bits << (7*i)` on some machine. -/
def shiftedBitsOn (m : Overshift) (bits i : Nat) : Nat :=
  if 7 * i < 32 then shiftedBits bits i else intOperand (m.value bits i)

/-- The loop of `decode_varbyte` on some machine. -/
def decodeVarbyteLoopOn (m : Overshift) (data : Bytes) (offset i length : Nat) : Nat × Nat × Bool :=
  let byte := (data.getD offset 0).toNat
  let length := length ||| shiftedBitsOn m (byte &&& 0x7f) i
  let done := byte &&& 0x80 = 0
  if ¬ done ∧ length < intMax ∧ offset + 1 < data.length then
    decodeVarbyteLoopOn m data (offset + 1) (i + 1) length
  else (length, offset + 1, done)
termination_by data.length - offset

/-- `decode_varbyte` on some machine. `decodeVarbyte` is the one on `Overshift.lost`. -/
def decodeVarbyteOn (m : Overshift) (data : Bytes) (offset : Nat) : Nat × Nat :=
  let (length, offset, done) := decodeVarbyteLoopOn m data offset 0 0
  if ¬ done ∨ length ≥ intMax then (0, offset) else (length, offset)

/-! ### JSON -/

/-- A `rapidjson::Value`. -/
inductive Json
  | null
  | bool (b : Bool)
  | int64 (n : Int)
  | string (s : String)
  | array (elements : List Json)
  | object (members : List (String × Json))

/-- The members of an object in the order they are written. -/
abbrev Members := List (String × Json)

/-- `HasMember`. -/
def Members.has (members : Members) (name : String) : Bool := members.any (·.1 = name)

/-- What the code calls of rapidjson, of `json_parse_utils.h` and of LZ4.

* `write` is the text of a `rapidjson::Writer` from `StartObject` to `EndObject`, and `parse`
  is `Document::Parse<0>`, with `none` for a parse error.
* `stringArray` is the value that `write_json_string_array` writes, and the four readers are
  `extract_json_string_array`, `JSON_SAFE_GET_STRING_MEMBER`, `JSON_SAFE_GET_INT_64_MEMBER`
  (the last argument is the value of the variable before) and `JSON_GET_BOOL_MEMBER`, with
  `none` when it throws.
* `compress` is `LZ4_compress_fast_continue` on a stream with the dictionary loaded: the
  source and the size of the buffer, and `[]` when it answers 0. `decompress` is
  `LZ4_decompress_safe_usingDict`, with `none` for a negative answer. -/
structure Codec where
  write : Members → Bytes
  parse : Bytes → Option Json
  stringArray : List String → Json
  extractStringArray : Json → String → List String
  getString : Json → String → String → String
  getInt64 : Json → String → Int → Int
  getBool : Json → String → Option Bool
  compress : String → Bytes → Nat → Bytes
  decompress : String → Bytes → Nat → Option Bytes

/-- `JsonFormatError`, which `JSON_GET_BOOL_MEMBER` throws. -/
inductive JsonFormatError
  | badMember
  deriving DecidableEq, Repr

/-- `_dict_v0`. -/
def dictV0 : String :=
  "\x7b\"registration_state\":true,\"service_profile\":\"<IMSSubscription>" ++
  "<PrivateID></PrivateID><ServiceProfile><PublicIdentity><Identity>" ++
  "<Extension></Extension></PublicIdentity><IniitialFilterCriteria><Priority>" ++
  "</Priority><TriggerPoint><ConditionTypeCNF></ConditionTypeCNF><SPT>" ++
  "<ConditionNegated></ConditionNegated><Group></Group><Method></Method>" ++
  "</TriggerPoint><ApplicationServer><ServerName></ServerName><DefaultHandling>" ++
  "</DefaultHandling></ApplicationServer></InitialFilterCriteria>" ++
  "</ServiceProfile></IMSSubscription><SIPHeader><Header></Header></SIPHeader>" ++
  "<SessionCase></SessionCase>\",\"expiry\":,\"assoc_impu\":[\"],\"impis\":[]," ++
  "\"ecfs\":[],\"ccfs\":[]\x7d\"default_impu\":\""

def maxBufferLen : Nat := 131072

namespace Codec

variable (x : Codec)

/-- `DefaultImpu::write_json`. A state other than `REGISTERED` is written as `false`. -/
def writeDefault (d : DefaultImpu) : Members :=
  [("registration_state", .bool (decide (d.registrationState = .registered))),
   ("service_profile", .string (cString d.serviceProfile)),
   ("expiry", .int64 d.expiry),
   ("assoc_impu", x.stringArray d.associatedImpus),
   ("impis", x.stringArray d.impis),
   ("ecfs", x.stringArray d.chargingAddresses.ecfs),
   ("ccfs", x.stringArray d.chargingAddresses.ccfs)]

/-- `AssociatedImpu::write_json`. -/
def writeAssociated (a : AssociatedImpu) : Members :=
  [("default_impu", .string (cString a.defaultImpu)), ("expiry", .int64 a.expiry)]

/-- `write_json` of the two kinds. -/
def writeImpu : Impu → Members
  | .default d => x.writeDefault d
  | .associated a => writeAssociated a

/-- `ImpiMapping::write_json`. -/
def writeMapping (m : ImpiMapping) : Members :=
  [("default_impus", x.stringArray m.defaultImpus), ("expiry", .int64 m.expiry)]

/-- The text of an object, through `buffer.GetString()`. -/
def jsonText (members : Members) : Bytes := cBytes (x.write members)

/-- `AssociatedImpu::from_json`. -/
def associatedFromJson (impu : String) (json : Json) (cas : Nat) (store : StoreId) :
    AssociatedImpu where
  impu := impu
  defaultImpu := x.getString json "default_impu" ""
  cas := cas
  expiry := x.getInt64 json "expiry" 0
  store := some store

/-- `DefaultImpu::from_json`. -/
def defaultFromJson (impu : String) (json : Json) (cas : Nat) (store : StoreId) :
    Except JsonFormatError DefaultImpu :=
  match x.getBool json "registration_state" with
  | none => .error .badMember
  | some state => .ok
    { impu := impu
      associatedImpus := x.extractStringArray json "assoc_impu"
      impis := x.extractStringArray json "impis"
      registrationState := if state then .registered else .unregistered
      chargingAddresses :=
        { ccfs := x.extractStringArray json "ccfs", ecfs := x.extractStringArray json "ecfs" }
      serviceProfile := x.getString json "service_profile" ""
      cas := cas
      expiry := x.getInt64 json "expiry" 0
      store := some store }

/-- `ImpiMapping::from_json`. -/
def mappingFromJson (impi : String) (json : Json) (cas : Nat) : ImpiMapping where
  impi := impi
  cas := cas
  expiry := x.getInt64 json "expiry" 0
  defaultImpus := x.extractStringArray json "default_impus"

/-! ### Compression -/

/-- The first `uncomp_size` bytes of the text, which is what LZ4 is given. The size is an
`unsigned int`. -/
def source (data : Bytes) : Bytes := data.take (data.length % 2 ^ 32)

/-- The loop of `compress_data_v0`: the buffer is doubled until the text fits, up to
`MAX_BUFFER_LEN`. -/
def compressLoop (data : Bytes) (bufferLength : Nat) (hpos : 0 < bufferLength) : Bytes :=
  let compressed := x.compress dictV0 (source data) bufferLength
  if compressed = [] then
    if bufferLength * 2 > maxBufferLen then []
    else compressLoop data (bufferLength * 2) (by omega)
  else compressed
termination_by maxBufferLen - bufferLength

/-- `compress_data_v0`. The answer is empty when the text does not fit. -/
def compressDataV0 (data : Bytes) : Bytes := x.compressLoop data 2048 (by decide)

/-! ### Records -/

/-- `Impu::to_data`, into an empty string. -/
def toData (impu : Impu) : Status × Bytes :=
  let json := x.jsonText (x.writeImpu impu)
  let uncompSize := json.length % 2 ^ 32
  let compressed := x.compressDataV0 json
  if compressed = [] then (.error, [])
  else (.ok, 0 :: (encodeVarbyte uncompSize ++ compressed))

/-- The part of `from_data` after the decompression. -/
def fromText (impu : String) (json : Bytes) (cas : Nat) (store : StoreId) :
    Except JsonFormatError (Option Impu) :=
  match x.parse (cBytes json) with
  | none => .ok none
  | some (.object members) =>
    -- This member is what tells the two kinds apart.
    if Members.has members "default_impu" then
      .ok (some (.associated (x.associatedFromJson impu (.object members) cas store)))
    else do
      let d ← x.defaultFromJson impu (.object members) cas store
      pure (some (.default d))
  | some _ => .ok none

/-- `Impu::from_data`. The null pointer is `none`. -/
def fromData (impu : String) (data : Bytes) (cas : Nat) (store : StoreId) :
    Except JsonFormatError (Option Impu) :=
  if data.length = 0 then .ok none
  else if data.getD 0 0 = 0 then
    let (length, offset) := decodeVarbyte data 1
    -- The size 0 stands for a corrupt one, so an empty text cannot be read back.
    if length = 0 then .ok none
    else
      match x.decompress dictV0 (data.drop offset) length with
      | none => .ok none
      | some json =>
        if json.length = 0 ∨ json.length ≠ length then .ok none
        else x.fromText impu json cas store
  else .ok none

/-- `ImpiMapping::to_data`. -/
def mappingToData (m : ImpiMapping) : Status × Bytes :=
  (.ok, x.jsonText (x.writeMapping m))

/-- `ImpiMapping::from_data`. -/
def mappingFromData (impi : String) (data : Bytes) (cas : Nat) : Option ImpiMapping :=
  match x.parse (cBytes data) with
  | none => none
  | some (.object members) => some (x.mappingFromJson impi (.object members) cas)
  | some _ => none

/-! ### Reading a record -/

/-- `ImpuStore::get_impu`, for the answer of `Store::get_data` with its data and CAS value, and for
what the out parameter holds. Nothing catches what `from_data` throws. -/
def getImpu (impu : String) (store : StoreId) (found : Status × Bytes × Nat) (out : Option Impu) :
    Except JsonFormatError (Status × Option Impu) :=
  if found.1 = .ok then do
    -- The temporary keeps the out parameter unchanged when the data is not decoded.
    let tempImpu ← x.fromData impu found.2.1 found.2.2 store
    match tempImpu with
    | none => pure (.error, out)
    | some impu => pure (.ok, some impu)
  else pure (found.1, out)

/-- `ImpuStore::get_impi_mapping`, in the same way. -/
def getImpiMapping (impi : String) (found : Status × Bytes × Nat) (out : Option ImpiMapping) :
    Status × Option ImpiMapping :=
  if found.1 = .ok then
    match x.mappingFromData impi found.2.1 found.2.2 with
    | none => (.error, out)
    | some mapping => (.ok, some mapping)
  else (found.1, out)

/-! ### What the code relies on -/

/-- The documented behaviour of LZ4 and of the JSON helpers. `LZ4_MAX_INPUT_SIZE` is
0x7E000000, an empty source is compressed to one empty token, and an empty document is a parse
error. -/
structure Lawful : Prop where
  parse_nil : x.parse [] = none
  decompress_compress : ∀ dict src capacity, x.compress dict src capacity ≠ [] →
    x.decompress dict (x.compress dict src capacity) src.length = some src
  source_le : ∀ dict src capacity, x.compress dict src capacity ≠ [] → src.length ≤ 0x7E000000
  compress_nil : ∀ dict capacity, x.compress dict [] capacity ≠ [] →
    x.compress dict [] capacity = [0]
  extractStringArray : ∀ (members : Members) name xs, (∀ s ∈ xs, '\x00' ∉ s.toList) →
    members.lookup name = some (x.stringArray xs) →
    x.extractStringArray (.object members) name = xs
  getString : ∀ (members : Members) name s initial, members.lookup name = some (.string s) →
    x.getString (.object members) name initial = s
  getInt64 : ∀ (members : Members) name n initial, -2 ^ 63 ≤ n → n < 2 ^ 63 →
    members.lookup name = some (.int64 n) → x.getInt64 (.object members) name initial = n
  getBool : ∀ (members : Members) name b, members.lookup name = some (.bool b) →
    x.getBool (.object members) name = some b

/-- The documented behaviour of rapidjson on one object: its text has no NUL, is parsed as the
object, and has no proper beginning that is a document. -/
structure ReadsBack (members : Members) : Prop where
  noNul : 0 ∉ x.write members
  parse_write : x.parse (x.write members) = some (.object members)
  parse_beginning : ∀ text, text <+: x.write members → text ≠ x.write members →
    x.parse text = none

end Codec

end Homestead
