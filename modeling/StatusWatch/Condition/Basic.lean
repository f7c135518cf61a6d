import StatusWatch.Instant.Basic

/-!
# Conditions

A condition is a named health indicator of a resource with three states. It
records since when it has its status and for which generation of the resource it
was computed.

- `ConditionStatus`, `ConditionSeverity`, `Condition`: the data.
- `Condition.of`: a fresh condition, stamped with a time.
- `Condition.sameState`: equality up to times and generations.
- `isTrue?`, `isFalse?`, `isUnknown?`: the status of a condition that may be absent;
  an absent one counts as unknown.
-/

namespace StatusWatch

/-- The three states of a condition. -/
inductive ConditionStatus where
  | true
  | false
  | unknown
deriving DecidableEq, Inhabited

namespace ConditionStatus

/-- The status as it is written. -/
def text : ConditionStatus → String
  | .true => "True"
  | .false => "False"
  | .unknown => "Unknown"

/-- The status of a condition about which nothing is known yet. -/
def initial : ConditionStatus := .unknown

end ConditionStatus

/-- How seriously a condition that is not true should be taken. -/
inductive ConditionSeverity where
  | error
  | info
deriving DecidableEq, Inhabited

namespace ConditionSeverity

def text : ConditionSeverity → String
  | .error => "Error"
  | .info => "Info"

def isError (s : ConditionSeverity) : Bool := s = .error

end ConditionSeverity

/-- A status condition. -/
structure Condition where
  /-- The stable name, such as `Ready`. -/
  type : String
  status : ConditionStatus
  severity : ConditionSeverity
  /-- A short reason for machines. -/
  reason : String
  /-- Detail for people. -/
  message : String
  /-- When the status changed last. -/
  lastTransition : Instant
  /-- The generation of the resource that the condition was computed against. -/
  observedGeneration : Int64
deriving DecidableEq, Inhabited

namespace Condition

/-- A fresh condition of the given type and status. -/
def of (now : Instant) (type : String) (status : ConditionStatus) : Condition :=
  { type, status, severity := .error, reason := "", message := "", lastTransition := now,
    observedGeneration := 0 }

def isTrue (c : Condition) : Bool := c.status = .true

def isFalse (c : Condition) : Bool := c.status = .false

def isUnknown (c : Condition) : Bool := c.status = .unknown

/-- Whether two conditions say the same, times and generations aside. -/
def sameState (a b : Condition) : Bool :=
  a.status = b.status && a.reason = b.reason && a.message = b.message && a.severity = b.severity

/-- Order by type. -/
def typeNotAfter (a b : Condition) : Bool := a.type ≤ b.type

/-- The first condition of the given type. -/
def find? (type : String) (conditions : List Condition) : Option Condition :=
  conditions.find? fun c => c.type = type

/-- The list in the order of types; entries of one type keep their order. -/
def sortByType (conditions : List Condition) : List Condition :=
  conditions.mergeSort typeNotAfter

end Condition

/-! ## Conditions that may be absent -/

def isTrue? (c : Option Condition) : Bool := c.any Condition.isTrue

def isFalse? (c : Option Condition) : Bool := c.any Condition.isFalse

def isUnknown? (c : Option Condition) : Bool := c.all Condition.isUnknown

end StatusWatch
