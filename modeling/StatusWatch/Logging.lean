/-!
# Logging settings

- `LogSettings`: what a log subscriber is set up with.
- `LogSettings.install`: install a subscriber; only one can be installed.
-/

namespace StatusWatch

/-- What a log subscriber is set up with. -/
structure LogSettings where
  serviceName : String
  level : String
  jsonFormat : Bool
deriving DecidableEq, Inhabited

inductive LoggingError where
  /-- A subscriber is installed already. -/
  | alreadyInstalled
deriving DecidableEq

def LoggingError.message : LoggingError → String
  | alreadyInstalled =>
    "Tracing error: a global default trace dispatcher has already been set"

namespace LogSettings

/-- The level of a subscriber for which none is given. -/
def defaultLevel : String := "info"

/-- The settings of a service before anything else is said. -/
def of (serviceName : String) : LogSettings :=
  { serviceName, level := defaultLevel, jsonFormat := false }

def withLevel (s : LogSettings) (level : String) : LogSettings := { s with level }

def withJsonFormat (s : LogSettings) : LogSettings := { s with jsonFormat := true }

/-- Install a subscriber, given the one that is installed. -/
def install (s : LogSettings) (installed : Option LogSettings) :
    Except LoggingError (Option LogSettings) :=
  match installed with
  | none => .ok (some s)
  | some _ => .error .alreadyInstalled

end LogSettings

end StatusWatch
