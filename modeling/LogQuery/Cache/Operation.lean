import LogQuery.Cache.Basic

/-!
# Runs of cache operations

The operations on a cache as data, each with its answer, and runs of them.
-/

namespace LogQuery.Cache

variable {α : Type}

/-- An operation on a cache. -/
inductive Operation (α : Type) where
  | get (query : String) (version : Option String) (now : Int)
  | set (query : String) (version : Option String) (value : α) (now : Int)
  | invalidate (keep : String)
  | clear
  | stats

/-- What an operation answers. -/
inductive Answer (α : Type) where
  /-- The result that was looked up. -/
  | found (value : Option α)
  /-- How many entries were removed. -/
  | removed (count : Nat)
  | none

/-- Does one operation. -/
def step (c : Cache α) : Operation α → Answer α × Cache α
  | .get query version now =>
    let (value, c) := c.get query version now
    (.found value, c)
  | .set query version value now => (.none, c.set query version value now)
  | .invalidate keep =>
    let (count, c) := c.invalidate keep
    (.removed count, c)
  | .clear => (.none, c.clear)
  | .stats => (.none, c)

/-- Does a row of operations, and collects their answers. -/
def run (c : Cache α) : List (Operation α) → List (Answer α) × Cache α
  | [] => ([], c)
  | op :: rest =>
    let (answer, c) := c.step op
    let (answers, c) := run c rest
    (answer :: answers, c)

end LogQuery.Cache
