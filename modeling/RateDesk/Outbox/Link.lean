import RateDesk.Outbox.Message

/-!
# The link to the consumer

Messages wait in a queue of bounded length. Each gets one turn: it is written on the open
connection, or on a new one if none is open. Nothing is tried twice, and nothing that goes wrong
holds up the messages behind. Main definitions: `Outbox`, `Turn`, `Outbox.offer`, `Outbox.take`,
`Consumer`, `Outbox.drain`.
-/

namespace RateDesk

/-- What the turn of a message meets. -/
structure Turn where
  /-- Whether a connection can be made, if one is needed. -/
  connects : Bool
  /-- How many bytes get through before writing fails, if it does. -/
  breaksAfter : Option Nat
deriving DecidableEq, Repr

/-- The messages that wait, and what was sent. -/
structure Outbox where
  /-- The messages that wait, oldest first. -/
  queue : List Message
  /-- The bytes sent on each connection, newest connection first. -/
  connections : List (Array UInt8)
  /-- Whether the newest connection is open. -/
  isOpen : Bool
deriving DecidableEq

namespace Outbox

abbrev capacity : Nat := 4096

def empty : Outbox := ⟨[], [], false⟩

/-- Puts a message behind those that wait; if there is no room it is lost. -/
def offer (o : Outbox) (m : Message) : Outbox :=
  if o.queue.length < capacity then { o with queue := o.queue ++ [m] } else o

/-- Puts messages behind those that wait, as far as there is room. -/
def offerAll (o : Outbox) (ms : List Message) : Outbox :=
  { o with queue := o.queue ++ ms.take (capacity - o.queue.length) }

def connect (o : Outbox) : Outbox := { o with connections := #[] :: o.connections, isOpen := true }

/-- Sends bytes on the newest connection. -/
def send (o : Outbox) (bytes : List UInt8) : Outbox :=
  { o with connections :=
      match o.connections with
      | c :: cs => (c ++ bytes) :: cs
      | [] => [bytes.toArray] }

/-- Writes a frame on the newest connection. A write that fails has sent less than the frame, and
ends the connection. -/
def write (o : Outbox) (frame : List UInt8) : Option Nat → Outbox
  | none => o.send frame
  | some n => { o.send (frame.take (min n (frame.length - 1))) with isOpen := false }

def deliver (o : Outbox) (t : Turn) (m : Message) : Outbox :=
  match m.frame with
  | .error _ => o
  | .ok frame =>
    if o.isOpen then o.write frame t.breaksAfter
    else if t.connects then o.connect.write frame t.breaksAfter
    else o

/-- Takes the oldest message that waits and gives it its turn. -/
def take (o : Outbox) (t : Turn) : Outbox :=
  match o.queue with
  | [] => o
  | m :: ms => { o with queue := ms }.deliver t m

def sentBytes (o : Outbox) : Nat := (o.connections.map Array.size).foldl (· + ·) 0

end Outbox

/-! ## The other side -/

/-- The consumer, as far as turns meet it. -/
structure Consumer where
  /-- Whether a connection can be made. -/
  listens : Bool
  /-- Whether the consumer closed the open connection. -/
  hungUp : Bool
deriving DecidableEq, Repr

namespace Consumer

def hangUp (c : Consumer) (o : Outbox) : Consumer := { c with hungUp := o.isOpen }

/-- What the next turn meets: a closed connection shows when it is written on. -/
def turn (c : Consumer) (o : Outbox) : Turn :=
  ⟨c.listens, if o.isOpen && c.hungUp then some 0 else none⟩

end Consumer

/-- Gives `n` messages their turns; a connection made on the way is not closed. -/
def Outbox.drainTurns (o : Outbox) (c : Consumer) : (n : Nat) → Outbox × Consumer
  | 0 => (o, c)
  | n + 1 =>
    let next := o.take (c.turn o)
    next.drainTurns { c with hungUp := c.hungUp && o.isOpen && next.isOpen } n

/-- Gives every message that waits its turn. -/
def Outbox.drain (o : Outbox) (c : Consumer) : Outbox × Consumer := o.drainTurns c o.queue.length

end RateDesk
