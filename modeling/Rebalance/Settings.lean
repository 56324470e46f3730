import Rebalance.Fault
/-!
# Run settings

How many workers a run uses, how long a migration may take, whether two identical clocks may
be resolved, and which nodes a failed commit is reverted on. Settings come from environment
variables, each optional and read in a fixed order; the first unreadable one is the error.
Counts are read as decimal digits with an optional `+` and must fit in 64 bits.
-/

namespace Rebalance

/-- Which nodes a failed commit is reverted on. -/
inductive RollbackTargets where
  | affectedNodes
  | none
deriving DecidableEq, Repr

/-- A setting whose text could not be accepted. -/
inductive SettingsError where
  | invalidValue (key : String) (value : String)
deriving DecidableEq, Repr

namespace SettingsError

/-- The sentence that reports the error. -/
def message : SettingsError → String
  | invalidValue key value => "Invalid value for " ++ key ++ ": " ++ value

end SettingsError

namespace RollbackTargets

/-- Reads `affected` or `none`. -/
def parse (s : String) : Except SettingsError RollbackTargets :=
  if s = "affected" then .ok .affectedNodes
  else if s = "none" then .ok .none
  else .error (.invalidValue "REBALANCER_ROLLBACK_TARGETS" s)

end RollbackTargets

/-- The settings of a run. -/
structure Settings where
  maxParallel : Nat
  timeoutSecs : Nat
  acceptIdentical : Bool
  rollbackTargets : RollbackTargets
deriving DecidableEq, Repr

namespace Settings

/-- Four workers, a day per migration, identical clocks refused, reverts on affected nodes. -/
def defaults : Settings := ⟨4, 86400, false, .affectedNodes⟩

/-- Reads decimal digits with an optional leading `+` as a count of at most `maxU64`. -/
def parseCount (s : String) : Option Nat :=
  let digits := match s.toList with
    | '+' :: rest => rest
    | cs => cs
  if digits.isEmpty || !digits.all (fun c => '0' ≤ c && c ≤ '9') then none
  else
    let n := digits.foldl (fun acc c => acc * 10 + (c.toNat - 48)) 0
    if n ≤ maxU64 then some n else none

/-- Checks that there is at least one worker and a non-zero timeout. -/
def validate (s : Settings) : Except SettingsError Unit :=
  if s.maxParallel = 0 then .error (.invalidValue "max_parallel_rebalancing" "0")
  else if s.timeoutSecs = 0 then .error (.invalidValue "migration_timeout" "0s")
  else .ok ()

/-- Reads a count setting if it is present. -/
def countFrom (env : String → Option String) (key : String) (d : Nat) :
    Except SettingsError Nat :=
  match env key with
  | none => .ok d
  | some raw =>
    match parseCount raw with
    | some n => .ok n
    | none => .error (.invalidValue key raw)

/-- The settings from the environment, each missing one at its default, then validated. -/
def fromEnv (env : String → Option String) : Except SettingsError Settings := do
  let maxParallel ← countFrom env "REBALANCER_MAX_PARALLEL" defaults.maxParallel
  let timeoutSecs ← countFrom env "REBALANCER_MIGRATION_TIMEOUT_SECS" defaults.timeoutSecs
  let acceptIdentical := match env "REBALANCER_ACCEPT_IDENTICAL_CLOCKS" with
    | some v => v = "true" || v = "1"
    | none => defaults.acceptIdentical
  let rollbackTargets ← match env "REBALANCER_ROLLBACK_TARGETS" with
    | some v => RollbackTargets.parse v
    | none => pure defaults.rollbackTargets
  let s : Settings := ⟨maxParallel, timeoutSecs, acceptIdentical, rollbackTargets⟩
  s.validate
  return s

end Settings

end Rebalance
