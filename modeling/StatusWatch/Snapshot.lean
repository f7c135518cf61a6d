import StatusWatch.Condition.Basic
import StatusWatch.ObjectMeta

/-!
# Snapshots

What was last seen of each resource. Comparing two snapshots of a resource is how
changes are found.

- `Snapshot`: what was seen of one resource.
- `SnapshotStore`: the latest snapshot of each resource key.
- `SnapshotStore.swap`: replace a snapshot by one computed from the previous one.
-/

namespace StatusWatch

/-- What was last seen of a resource. -/
structure Snapshot where
  uid : String
  conditions : List Condition
  finalizers : List String
  /-- The deletion time that was seen first, if the resource is terminating. -/
  terminatingSince : Option Instant
  /-- Resource labels, for what is reported after the resource is gone. -/
  labels : Labels
  observedAt : Instant
deriving DecidableEq, Inhabited

namespace Snapshot

/-- The first condition of a type. -/
def get? (s : Snapshot) (type : String) : Option Condition := Condition.find? type s.conditions

def isTerminating (s : Snapshot) : Bool := s.terminatingSince.isSome

end Snapshot

/-- The latest snapshot of each resource. -/
abbrev SnapshotStore := OrderedMap ResourceKey Snapshot

namespace SnapshotStore

/-- Replace the snapshot of a key by one computed from the previous one, which is
returned. -/
def swap (store : SnapshotStore) (key : ResourceKey) (next : Option Snapshot → Snapshot) :
    SnapshotStore × Option Snapshot :=
  let previous := store.get? key
  (store.insert key (next previous), previous)

/-- Drop the snapshot of a key, which is returned. -/
def remove (store : SnapshotStore) (key : ResourceKey) : SnapshotStore × Option Snapshot :=
  (store.erase key, store.get? key)

end SnapshotStore

end StatusWatch
