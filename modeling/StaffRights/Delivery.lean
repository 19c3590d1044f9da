import StaffRights.Invalidation

/-!
# Delivery of invalidations

Invalidations go to a `Sink`. One kind drops them, one keeps them until they are taken, and one is a
`Channel` of limited capacity: a subscriber that falls behind loses the oldest ones and is told how
many.

Reference: `SPEC_FULL.md` 10.9 (`InvalidationSink`).
-/

namespace StaffRights

/-- What a subscriber has not received yet. -/
structure Backlog where
  /-- How many invalidations were lost. -/
  lost : Nat := 0
  /-- The invalidations that were kept, oldest first. -/
  pending : List Invalidation := []
  deriving DecidableEq, Repr

/-- A channel that keeps at most `capacity` invalidations for its subscriber. -/
structure Channel where
  capacity : Nat
  subscriber : Option Backlog
  deriving DecidableEq, Repr

namespace Channel

/-- A channel with a subscriber; its capacity is the next power of two. -/
def new (capacity : Nat) : Channel := ⟨capacity.nextPowerOfTwo, some {}⟩

/-- Adds an invalidation to a backlog, losing the oldest one if there is no room. -/
def enqueue (capacity : Nat) (b : Backlog) (i : Invalidation) : Backlog :=
  let pending := b.pending ++ [i]
  if capacity < pending.length then ⟨b.lost + 1, pending.drop 1⟩ else { b with pending := pending }

/-- Sends an invalidation; without a subscriber it is dropped. -/
def publish (c : Channel) (i : Invalidation) : Channel :=
  { c with subscriber := c.subscriber.map fun b => enqueue c.capacity b i }

/-- Receives the whole backlog, if there is a subscriber. -/
def receive (c : Channel) : Option Backlog × Channel :=
  (c.subscriber, { c with subscriber := c.subscriber.map fun _ => {} })

/-- Drops the subscriber. -/
def unsubscribe (c : Channel) : Channel := { c with subscriber := none }

end Channel

/-- Where invalidations go. -/
inductive Sink where
  | discard
  | record (kept : List Invalidation)
  | channel (c : Channel)
  deriving DecidableEq, Repr

namespace Sink

/-- Delivers one invalidation. -/
def publish : Sink → Invalidation → Sink
  | .discard, _ => .discard
  | .record kept, i => .record (kept ++ [i])
  | .channel c, i => .channel (c.publish i)

/-- Delivers several invalidations in order. -/
def publishAll (s : Sink) (is : List Invalidation) : Sink := is.foldl publish s

/-- Takes the invalidations out of a recording sink; other sinks keep none. -/
def take : Sink → List Invalidation × Sink
  | .record kept => (kept, .record [])
  | s => ([], s)

/-- Receives the backlog of a channel's subscriber. -/
def receive : Sink → Option Backlog × Sink
  | .channel c => (c.receive.1, .channel c.receive.2)
  | s => (none, s)

/-- Drops the subscriber of a channel. -/
def unsubscribe : Sink → Sink
  | .channel c => .channel c.unsubscribe
  | s => s

end Sink

end StaffRights
