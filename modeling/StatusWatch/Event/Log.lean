import StatusWatch.Event.Basic

/-!
# Event logs

A log records events in the order in which they are published.

- `EventLog`: the events recorded so far.
- `EventLog.publish`, `EventLog.take`: add events; remove and return all of them.
-/

namespace StatusWatch

/-- The events published so far, the oldest first. -/
structure EventLog where
  events : List StatusEvent
deriving DecidableEq, Inhabited

namespace EventLog

def empty : EventLog := ⟨[]⟩

def publish (log : EventLog) (e : StatusEvent) : EventLog := ⟨log.events ++ [e]⟩

/-- The reasons of the recorded events, in order. -/
def reasons (log : EventLog) : List String := log.events.map (·.reason)

/-- Return everything recorded so far and start anew. -/
def take (log : EventLog) : List StatusEvent × EventLog := (log.events, empty)

def size (log : EventLog) : Nat := log.events.length

@[simp] theorem events_publish (log : EventLog) (e : StatusEvent) :
    (log.publish e).events = log.events ++ [e] := rfl

end EventLog

end StatusWatch
