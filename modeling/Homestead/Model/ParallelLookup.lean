import Homestead.Lib.Futures
import Homestead.Model.MemcachedCache

/-!
# `Homestead.Model.ParallelLookup`: the parallel remote reads of `get_impu_for_impu_gr`

`MemcachedCache.getImpuForImpuGr` reads the remote stores one after the other. The source
(`src/memcached_cache.cpp`) queues one read for each of them on a thread pool, and then waits
for the promises in the order of the configuration. `ImpuLookup.run` is that: the answers of the
stores, and a schedule in which the reads end and their results are taken.

A stopwatch is left out: it is not a part of the result.
-/

set_option autoImplicit false

namespace Homestead

/-- The answer of `ImpuStore::get_impu` or `ImpuStore::get_impi_mapping`: a status, and what the
out parameter is set to. It is set for `OK` only. -/
structure GetAnswer (α : Type) where
  status : Status
  record : Option α
  ok_iff : status = .ok ↔ record.isSome = true

namespace GetAnswer

variable {α : Type}

/-- The answer as the value of the call. -/
def toResp (answer : GetAnswer α) : Status × Option α := (answer.status, answer.record)

/-- The status and the out parameter after the call, which was made with `out` in it. -/
def into (answer : GetAnswer α) (out : Option α) : Status × Option α :=
  (answer.status, answer.record.or out)

end GetAnswer

namespace ImpuLookup

/-- The body of the loop over the promises: the first result that is `OK` is kept, and the others
are discarded. `remote_data` was the null pointer before the read. -/
def takeResult (found : Status × Option Impu) (result : GetAnswer Impu) : Status × Option Impu :=
  if found.1 ≠ .ok ∧ result.status = .ok then (.ok, (result.into none).2) else found

/-- `get_impu_for_impu_gr` with the out parameter `out`, for the answers of the local store and of
the remote stores. There is no result yet when the schedule is not at its end. -/
def run (localAnswer : GetAnswer Impu) (remoteAnswers : List (GetAnswer Impu)) (out : Option Impu)
    (schedule : List FuturesEvent) : Option (Status × Option Impu) :=
  let found := localAnswer.into out
  if found.1 = .notFound then
    match (Futures.start remoteAnswers found).run remoteAnswers takeResult schedule with
    | some c => if c.taken = remoteAnswers.length then some c.acc else none
    | none => none
  -- No read is queued.
  else if schedule = [] then some found else none

end ImpuLookup

end Homestead
