import StatusWatch.Resource.Document

/-!
# Condition sets

The operations on the condition list of a resource that keep it in step with the
schema. The list is sorted by type, the schema's types are always present once it is
bound, and the root is derived from the dependents after every change of another
condition.

- `bind`: create the missing schema types as unknown.
- `write`: replace or insert a condition, with its time and generation stamped.
- `derivedRoot`, `recomputeRoot`: the root as the dependents determine it.
- `set` and its wrappers: `write`, then recompute the root.
- `clear`: remove a condition outside the schema.
- `ConditionSet.Operation`, `ConditionSet.run`: sequences of operations, each with its
  clock readings.

Setting a condition reads the clock more than once: for the condition, for every dependent
that is missing when the root is derived, and for the root.
-/

namespace StatusWatch

/-! ## The clock -/

/-- What the clock shows in the course of one operation. Nothing is said of how the readings
compare. A reading that leaves no trace is not among them: a condition that is made to be set is
stamped anew. -/
structure Readings where
  /-- When the condition is written. -/
  now : Instant
  /-- When the dependents that are missing are looked for, by their places in the schema. -/
  missing : List Instant
  /-- When the root is written. -/
  root : Instant
deriving DecidableEq

namespace Readings

/-- A clock that stands still. -/
def still (now : Instant) : Readings := ⟨now, [], now⟩

instance : Coe Instant Readings := ⟨still⟩

/-- The reading for the dependent in the given place. Past the last one that is told, the clock
shows what it shows when the root is written. -/
def missingAt (clock : Readings) (i : Nat) : Instant := clock.missing.getD i clock.root

end Readings

namespace Resource

/-! ## Binding -/

/-- The reason of schema conditions that binding creates. -/
def awaitingReason : String := "AwaitingReconciliation"

/-- The message of schema conditions that binding creates. -/
def awaitingMessage : String := "object is awaiting reconciliation"

/-- A schema condition about which nothing is known yet. -/
def awaiting (now : Instant) (generation : Int64) (type : String) : Condition :=
  { Condition.of now type .unknown with
    reason := awaitingReason, message := awaitingMessage, observedGeneration := generation }

/-- Append a condition for every type that the list lacks. -/
def addMissing (now : Instant) (generation : Int64) :
    List String → List Condition → List Condition
  | [], conditions => conditions
  | type :: types, conditions =>
    if (Condition.find? type conditions).isSome then addMissing now generation types conditions
    else addMissing now generation types (conditions ++ [awaiting now generation type])

/-- Create every declared type that the resource lacks. The list is written, sorted by
type, only if something was missing. -/
def bind (now : Instant) (r : Resource) : Resource :=
  let conditions := addMissing now r.metadata.generation r.conditionTypes.all r.conditions
  if conditions.length = r.conditions.length then r
  else r.setConditions (Condition.sortByType conditions)

/-! ## Reading -/

def get? (r : Resource) (type : String) : Option Condition := Condition.find? type r.conditions

def root? (r : Resource) : Option Condition := r.get? r.conditionTypes.root

/-- Whether all the named conditions are true. -/
def allTrue (r : Resource) (types : List String) : Bool := types.all fun t => isTrue? (r.get? t)

/-! ## Writing -/

/-- The condition as it is stored: the time of the last status change is kept when the
status stays, and the generation is that of the resource. Nothing is stored when the
present condition says the same. -/
def stamp? (now : Instant) (r : Resource) (c : Condition) : Option Condition :=
  let stamped := { c with lastTransition := now, observedGeneration := r.metadata.generation }
  match r.get? c.type with
  | none => some stamped
  | some old =>
    if old.sameState c then none
    else if old.status = c.status then some { stamped with lastTransition := old.lastTransition }
    else some stamped

/-- The list with every entry of the condition's type replaced by it, sorted by type. -/
def replaced (conditions : List Condition) (c : Condition) : List Condition :=
  Condition.sortByType (conditions.filter (fun d => d.type ≠ c.type) ++ [c])

/-- Replace or insert a condition by type; nothing if that changes nothing. -/
def write? (now : Instant) (r : Resource) (c : Condition) : Option Resource :=
  (stamp? now r c).map fun c => r.setConditions (replaced r.conditions c)

/-! ## The root -/

/-- The reason of a root that is not true. -/
def unhealthyReason : String := "UnhealthyDependents"

/-- The dependents that are not true; one that is missing is unknown as of the reading at which
it is looked for. -/
def unhealthy (clock : Readings) (r : Resource) : List Condition :=
  (r.conditionTypes.dependents.mapIdx fun i t =>
    (r.get? t).getD (Condition.of (clock.missingAt i) t .unknown)).filter fun c => !c.isTrue

/-- Latest transition first, then by type. -/
def laterFirst (a b : Condition) : Bool :=
  b.lastTransition.rank < a.lastTransition.rank ||
    (a.lastTransition.rank = b.lastTransition.rank && a.type ≤ b.type)

/-- One entry per unhealthy dependent. -/
def healthReport (conditions : List Condition) : String :=
  ", ".intercalate <|
    (conditions.mergeSort laterFirst).map fun c => c.type ++ "=" ++ c.status.text

/-- The root that the dependents determine: true if all are, else false if one is, else
unknown. -/
def derivedRoot (clock : Readings) (r : Resource) : Condition :=
  let root := r.conditionTypes.root
  let bad := r.unhealthy clock
  if bad = [] then { Condition.of clock.root root .true with reason := root }
  else
    let status := if bad.any Condition.isFalse then ConditionStatus.false else .unknown
    { Condition.of clock.root root status with
      reason := unhealthyReason, message := healthReport bad }

/-- Write the root that the dependents determine. -/
def recomputeRoot (clock : Readings) (r : Resource) : Resource :=
  (write? clock.root r (r.derivedRoot clock)).getD r

/-! ## Setting and clearing -/

/-- Replace or insert a condition and, unless it is the root, recompute the root. Tells
whether anything changed. -/
def set (clock : Readings) (r : Resource) (c : Condition) : Resource × Bool :=
  match write? clock.now r c with
  | none => (r, false)
  | some r => (if r.conditionTypes.isRoot c.type then r else r.recomputeRoot clock, true)

/-- A condition with a reason and a message. -/
def report (now : Instant) (type : String) (status : ConditionStatus) (reason message : String) :
    Condition :=
  { Condition.of now type status with reason, message }

/-- Set a condition to a status, with its type as the reason. -/
def setPlain (clock : Readings) (r : Resource) (status : ConditionStatus) (type : String) :
    Resource × Bool :=
  r.set clock (report clock.now type status type "")

/-- Set a condition to a status with a reason and a message. -/
def setReported (clock : Readings) (r : Resource) (status : ConditionStatus)
    (type reason message : String) : Resource × Bool :=
  r.set clock (report clock.now type status reason message)

/-- Remove a condition that the schema does not declare. Tells whether it was there. -/
def clear (r : Resource) (type : String) : Except ConditionError (Resource × Bool) :=
  if r.conditionTypes.contains type then .error (.schemaDeclared type)
  else
    let kept := r.conditions.filter fun c => c.type ≠ type
    if kept.length = r.conditions.length then .ok (r, false)
    else .ok (r.setConditions kept, true)

end Resource

/-! ## Runs -/

namespace ConditionSet

/-- An operation on the condition set of a resource. -/
inductive Operation where
  | bind
  | set (c : Condition)
  | clear (type : String)
deriving DecidableEq

/-- What an operation answers. -/
inductive Answer where
  | done
  | changed (b : Bool)
  | refused (type : String)
deriving DecidableEq

/-- A request, which is one step of a run: the clock readings, the generation that the resource has
by then, and the operation. -/
structure Request extends Readings where
  generation : Int64
  operation : Operation
deriving DecidableEq

/-- Perform an operation. -/
def Operation.perform (clock : Readings) (r : Resource) : Operation → Resource × Answer
  | .bind => (r.bind clock.now, .done)
  | .set c => let (r, changed) := r.set clock c; (r, .changed changed)
  | .clear type =>
    match r.clear type with
    | .ok (r, changed) => (r, .changed changed)
    | .error _ => (r, .refused type)

/-- Perform a request: the generation is updated first. -/
def Request.perform (r : Resource) (s : Request) : Resource × Answer :=
  s.operation.perform s.toReadings
    { r with metadata := { r.metadata with generation := s.generation } }

/-- Perform the steps in order and collect the answers. -/
def run (r : Resource) : List Request → Resource × List Answer
  | [] => (r, [])
  | s :: steps =>
    let (r, answer) := s.perform r
    let (r, answers) := run r steps
    (r, answer :: answers)

end ConditionSet

end StatusWatch
