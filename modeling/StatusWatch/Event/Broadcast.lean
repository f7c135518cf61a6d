/-!
# Broadcasting

A channel hands every message to all of its subscribers. It keeps the latest
messages only, as many as its capacity, rounded up to a power of two. A subscriber
that falls further behind loses the oldest ones and is told how many. A message
that is sent while nobody listens is dropped.

- `Broadcast α`: the channel; positions count the messages sent since its creation.
- `send`, `subscribe`, `unsubscribe`, `close`: its operations.
- `receive`: the next message for a subscriber, if there is one.
-/

namespace StatusWatch

/-- A channel with named subscribers. -/
structure Broadcast (α : Type) where
  capacity : Nat
  /-- Messages sent so far. -/
  sent : Nat
  /-- The latest messages, the oldest first. -/
  kept : List α
  /-- The position of the next message for each subscriber. -/
  readers : List (String × Nat)
  closed : Bool

namespace Broadcast

/-- What a subscriber finds. -/
inductive Received (α : Type) where
  | message (a : α)
  /-- Nothing new was sent. -/
  | empty
  /-- Nothing new was sent and nothing ever will be. -/
  | closed
  /-- So many messages are lost; the oldest one kept is next. -/
  | lagged (missed : Nat)

variable {α : Type}

/-- A channel that keeps at least `capacity` messages, and at least one. -/
def new (capacity : Nat) : Broadcast α :=
  { capacity := Nat.nextPowerOfTwo (max capacity 1), sent := 0, kept := [], readers := [],
    closed := false }

/-- The number of subscribers. -/
def count (b : Broadcast α) : Nat := b.readers.length

/-- Hand a message to the subscribers, if there are any. -/
def send (b : Broadcast α) (a : α) : Broadcast α :=
  if b.readers = [] then b
  else
    let kept := b.kept ++ [a]
    { b with sent := b.sent + 1, kept := kept.drop (kept.length - b.capacity) }

def isSubscribed (b : Broadcast α) (id : String) : Bool := b.readers.any fun r => r.1 = id

/-- Stop handing messages to a subscriber. -/
def unsubscribe (b : Broadcast α) (id : String) : Broadcast α :=
  { b with readers := b.readers.filter fun r => r.1 ≠ id }

/-- Start handing messages to a subscriber, from the next one on. -/
def subscribe (b : Broadcast α) (id : String) : Broadcast α :=
  let b := b.unsubscribe id
  { b with readers := b.readers ++ [(id, b.sent)] }

/-- No message will be sent any more. -/
def close (b : Broadcast α) : Broadcast α := { b with closed := true }

/-- Move a subscriber to a position. -/
def moveTo (b : Broadcast α) (id : String) (position : Nat) : Broadcast α :=
  { b with readers := b.readers.map fun r => if r.1 = id then (id, position) else r }

/-- The message at a position, if it is still kept. -/
def messageAt? (b : Broadcast α) (position : Nat) : Option α :=
  b.kept[position - (b.sent - b.kept.length)]?

/-- What a subscriber finds next; nothing if there is no such subscriber. -/
def receive (b : Broadcast α) (id : String) : Option (Received α × Broadcast α) :=
  (b.readers.find? fun r => r.1 = id).map fun r =>
    let position := r.2
    if b.sent ≤ position then (if b.closed then .closed else .empty, b)
    else
      let oldest := b.sent - b.capacity
      if position < oldest then (.lagged (oldest - position), b.moveTo id oldest)
      else match b.messageAt? position with
        | some a => (.message a, b.moveTo id (position + 1))
        | none => (.empty, b)

end Broadcast

end StatusWatch
