import Rebalance.Movement.Record
import Rebalance.Distinct
/-!
# Plans

A plan is a list of movements. For a run they are grouped into tasks, one per stealer: the
stealers in the order in which they first appear, each with its movements in plan order.

A plan is kept as JSON lines, one movement record per line. Reading splits the text at line
feeds, trims Unicode white space from each line and skips the empty ones; the first line that
cannot be read is the error.

Selecting a plan for a run checks every movement against the current and target topologies
(the donor must be in the current one, the stealer in one of them), keeps only the requested
stores of each movement and drops a movement left with none.
-/

namespace Rebalance

/-- The movements of one stealer. -/
structure Task where
  stealer : Nat
  movements : List Movement

/-- Adds a movement to the first task of its stealer, or opens a task for it at the end. -/
def Task.add (m : Movement) : List Task → List Task
  | [] => [⟨m.stealer, [m]⟩]
  | t :: ts => if t.stealer = m.stealer then ⟨t.stealer, t.movements ++ [m]⟩ :: ts
    else t :: Task.add m ts

/-- Tasks per stealer, built movement by movement in plan order (see `Task.add`): stealers in
first-seen order, movements in plan order. -/
def groupByStealer (ms : List Movement) : List Task := ms.foldl (fun ts m => Task.add m ts) []

/-- `"{t} stealer nodes, {m} movements, {p} partitions"`, counting every movement's moved
partitions. -/
def planSummary (tasks : List Task) : String :=
  let ms := tasks.flatMap Task.movements
  toString tasks.length ++ " stealer nodes, " ++ toString ms.length ++ " movements, " ++
    toString (ms.foldl (fun acc m => acc + m.allPartitions.length) 0) ++ " partitions"

/-- Characters with the Unicode White_Space property. -/
def isWhite (c : Char) : Bool :=
  let n := c.toNat
  (0x9 ≤ n && n ≤ 0xD) || n == 0x20 || n == 0x85 || n == 0xA0 || n == 0x1680 ||
    (0x2000 ≤ n && n ≤ 0x200A) || n == 0x2028 || n == 0x2029 || n == 0x202F ||
    n == 0x205F || n == 0x3000

/-- The text without white space at either end. -/
def trimWhite (s : String) : String :=
  String.ofList ((s.toList.dropWhile isWhite).reverse.dropWhile isWhite).reverse

/-- The lines of a text: split at line feeds, trimmed, the empty ones left out. -/
def textLines (cs : List Char) : List String :=
  ((cs.splitOn '\n').map fun l => trimWhite (String.ofList l)).filter fun l => !l.isEmpty

/-- The movements of a JSON-lines plan. -/
def planOfLines (input : String) : Except MovementError (List Movement) :=
  (textLines input.toList).mapM Movement.ofLine

/-- The plan as JSON lines, each line ended by a line feed. -/
def planToLines (ms : List Movement) : String := String.join (ms.map fun m => m.toLine ++ "\n")

/-- Why a plan cannot be used for a run. -/
inductive PlanError where
  | donorNotCurrent (donor : Nat) (movement : String)
  | stealerUnknown (stealer : Nat) (movement : String)
deriving DecidableEq, Repr

namespace PlanError

/-- The sentence that reports the error. -/
def message : PlanError → String
  | donorNotCurrent d m => "donor node " ++ toString d ++ " of " ++ m ++ " is not in the current topology"
  | stealerUnknown s m => "stealer node " ++ toString s ++ " of " ++ m ++ " is in neither topology"

end PlanError

/-- Checks one movement and keeps its requested stores; `none` when none is left. -/
def selectMovement (current target : Topology) (stores : List String) (m : Movement) :
    Except PlanError (Option Movement) :=
  if !current.containsNode m.donor then .error (.donorNotCurrent m.donor m.render)
  else if !current.containsNode m.stealer && !target.containsNode m.stealer then
    .error (.stealerUnknown m.stealer m.render)
  else
    let kept := m.retainStores (fun s => stores.contains s)
    .ok (if kept.isComplete then none else some kept)

/-- The tasks of a plan for a run from `current` to `target` over the requested stores. -/
def selectPlan (ms : List Movement) (current target : Topology) (stores : List String) :
    Except PlanError (List Task) := do
  let kept ← ms.mapM (selectMovement current target stores)
  return groupByStealer kept.reduceOption

end Rebalance
