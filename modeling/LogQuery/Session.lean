import LogQuery.Compilation

/-!
# Sessions

A session is a row of requests to one cache: to compile a query, or to work on the cache itself.
Each request that needs the time carries it, so that a session gives the same replies whenever it is
run, and may be run on a clock that goes backwards.
-/

namespace LogQuery.Session

/-- A request; a compilation asks the cache at `readAt` and writes to it at `storedAt`. -/
inductive Request where
  | compile (schema : Option Schema) (options : Options) (query : String) (readAt storedAt : Int)
  | cache (operation : Cache.Operation Compiled)

/-- The reply to a request. -/
inductive Reply where
  | compilation (c : Compilation)
  | cache (answer : Cache.Answer Compiled)

/-- Serves one request. -/
def step (cache : Cache Compiled) : Request → Reply × Cache Compiled
  | .compile schema options query readAt storedAt =>
    let (c, cache) := compileText schema options query readAt storedAt cache
    (.compilation c, cache)
  | .cache operation =>
    let (answer, cache) := cache.step operation
    (.cache answer, cache)

/-- Serves a row of requests, and collects the replies. -/
def run (cache : Cache Compiled) : List Request → List Reply × Cache Compiled
  | [] => ([], cache)
  | request :: rest =>
    let (reply, cache) := step cache request
    let (replies, cache) := run cache rest
    (reply :: replies, cache)

end LogQuery.Session
