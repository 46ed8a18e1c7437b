import Homestead.Lib.Simulation
import Homestead.Model.ImpuCodec

/-!
# `Homestead.Model.ByteStore`: the store calls on bytes

`ImpuStore` (`src/impu_store.cpp`) keeps each record as bytes, in the tables `impu` and
`impi_mapping` of a `Store`. Here the tables hold those bytes, and `serveBytes` answers the calls of
`Homestead.Model.ImpuStore` as the methods do: a read decodes what it finds, and a write encodes
the record first. A write that cannot be encoded does not reach the store. The exception that
`from_data` may throw ends the process.

The `Store` is reliable, as in `Homestead.Model.ImpuStore`. The `set` methods read the clock for
the time to live that they pass on. That is not part of this store, so neither is the reading.
-/

set_option autoImplicit false

namespace Homestead

/-- The two tables of a `Store`, by their keys. -/
structure ByteStore where
  impus : CasTable String Bytes
  mappings : CasTable String Bytes

/-- The stores of a deployment, and the readings `time(0)` will give. -/
structure ByteWorld where
  stores : StoreId → ByteStore
  clock : Nat → Int

namespace ByteWorld

def setImpus (w : ByteWorld) (s : StoreId) (t : CasTable String Bytes) : ByteWorld :=
  { w with stores := fun s' => if s' = s then { w.stores s with impus := t } else w.stores s' }

def setMappings (w : ByteWorld) (s : StoreId) (t : CasTable String Bytes) : ByteWorld :=
  { w with stores := fun s' => if s' = s then { w.stores s with mappings := t } else w.stores s' }

/-- The world after one clock reading. -/
def tick (w : ByteWorld) : ByteWorld := { w with clock := fun n => w.clock (n + 1) }

end ByteWorld

/-- `Store::get_data`: the status, the data and its CAS value. -/
def getData (t : CasTable String Bytes) (key : String) : Status × Bytes × Nat :=
  match t.cells key with
  | none => (.notFound, [], 0)
  | some (cas, data) => (.ok, data, cas)

/-- `Store::set_data`. -/
def setData (t : CasTable String Bytes) (key : String) (data : Bytes) (cas : Nat) :
    Status × CasTable String Bytes :=
  match t.cas key cas data with
  | some t' => (.ok, t')
  | none => (.dataContention, t)

/-- `Store::set_data_without_cas`. -/
def setDataWithoutCas (t : CasTable String Bytes) (key : String) (data : Bytes) :
    Status × CasTable String Bytes :=
  (.ok, t.put key data)

/-- `Store::delete_data`. -/
def deleteData (t : CasTable String Bytes) (key : String) : Status × CasTable String Bytes :=
  (.ok, t.erase key)

section

variable (x : Codec)

/-- The body of `set_impu`, `set_impu_without_cas` and `add_impu`. `write` is the call on the
store, which is made for a record that is encoded. -/
def ByteWorld.writeImpu (w : ByteWorld) (s : StoreId) (impu : Impu)
    (write : CasTable String Bytes → Bytes → Status × CasTable String Bytes) :
    Status × ByteWorld :=
  match x.toData impu with
  | (.ok, data) =>
    let written := write (w.stores s).impus data
    (written.1, w.setImpus s written.2)
  | (status, _) => (status, w)

/-- `ImpuStore::set_impi_mapping`. -/
def ByteWorld.writeMapping (w : ByteWorld) (s : StoreId) (mapping : ImpiMapping) :
    Status × ByteWorld :=
  match x.mappingToData mapping with
  | (.ok, data) =>
    let written := setData (w.stores s).mappings mapping.impi data mapping.cas
    (written.1, w.setMappings s written.2)
  | (status, _) => (status, w)

/-- The calls on bytes. -/
def serveBytes : FailingHandler Call Call.Resp ByteWorld JsonFormatError
  | .getImpu s impu, w =>
    match x.getImpu impu s (getData (w.stores s).impus impu) none with
    | .ok found => .ok (found, w)
    | .error e => .error e
  | .setImpu s impu, w =>
    .ok (w.writeImpu x s impu fun t data => setData t impu.impu data impu.cas)
  | .setImpuWithoutCas s impu, w =>
    .ok (w.writeImpu x s impu fun t data => setDataWithoutCas t impu.impu data)
  -- The CAS value 0 is the one of a key that is not there.
  | .addImpu s impu, w => .ok (w.writeImpu x s impu fun t data => setData t impu.impu data 0)
  | .deleteImpu s impu, w =>
    let deleted := deleteData (w.stores s).impus impu.impu
    .ok (deleted.1, w.setImpus s deleted.2)
  | .getImpiMapping s impi, w =>
    .ok (x.getImpiMapping impi (getData (w.stores s).mappings impi) none, w)
  | .setImpiMapping s mapping, w => .ok (w.writeMapping x s mapping)
  | .deleteImpiMapping s mapping, w =>
    let deleted := deleteData (w.stores s).mappings mapping.impi
    .ok (deleted.1, w.setMappings s deleted.2)
  | .time, w => .ok (w.clock 0, w.tick)
  | .progressCb, w => .ok ((), w)

end

end Homestead
