import LogQuery.Cache.Basic
import LogQuery.Number.FixedWidth
import LogQuery.Text.Blank

/-!
# Settings of the cache

The capacity and the time-to-live of the cache are read from two environment variables, and have
defaults. A variable that is no number is reported before any value that is out of range.
-/

namespace LogQuery

structure Settings where
  capacity : Nat
  ttlSeconds : Nat
  deriving DecidableEq

inductive SettingsError where
  /-- A variable that is set, and is no number. -/
  | invalidNumber (name : String) (raw : String)
  /-- Values out of range, in words. -/
  | outOfRange (problems : List String)
  deriving DecidableEq

namespace SettingsError

def message : SettingsError → String
  | invalidNumber name raw => "Invalid value for " ++ name ++ ": '" ++ raw ++ "'"
  | outOfRange problems => String.intercalate "\n" problems

end SettingsError

namespace Settings

def capacityVariable : String := "LOGCHEFQL_CACHE_CAPACITY"

def ttlVariable : String := "LOGCHEFQL_CACHE_TTL_SECS"

def default : Settings := ⟨100, 300⟩

/-- The largest capacity that may be set. -/
def maxCapacity : Nat := 1000000

/-- What is out of range. -/
def problems (s : Settings) : List String :=
  (if 1 ≤ s.capacity ∧ s.capacity ≤ maxCapacity then []
    else ["capacity: Capacity must be between 1 and 1000000"]) ++
  (if 1 ≤ s.ttlSeconds then [] else ["ttl_secs: TTL must be greater than zero"])

/-- The settings, if nothing is out of range. -/
def validate (s : Settings) : Except SettingsError Settings :=
  match s.problems with
  | [] => .ok s
  | problems => .error (.outOfRange problems)

/-- A natural number of at most 64 bits: white space around it is dropped, a plus sign allowed. -/
def readNumber? (raw : String) : Option Nat :=
  ((FixedWidth.unsigned 64).read? (Text.trim raw.toList)).map Int.toNat

/-- The number that a variable is set to, or its default. -/
def readVariable (lookup : String → Option String) (name : String) (default : Nat) :
    Except SettingsError Nat :=
  match lookup name with
  | none => .ok default
  | some raw =>
    match readNumber? raw with
    | some n => .ok n
    | none => .error (.invalidNumber name raw)

/-- The settings given by environment variables. -/
def load (lookup : String → Option String) : Except SettingsError Settings := do
  let capacity ← readVariable lookup capacityVariable default.capacity
  let ttlSeconds ← readVariable lookup ttlVariable default.ttlSeconds
  validate ⟨capacity, ttlSeconds⟩

/-- Nanoseconds in a second, the unit of the cache's times. -/
def second : Nat := 1000000000

/-- A new cache with these settings. -/
def newCache {α : Type} (s : Settings) : Cache α := .empty s.capacity (s.ttlSeconds * second)

end Settings

end LogQuery
