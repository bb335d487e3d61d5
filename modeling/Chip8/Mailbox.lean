/-!
# Mailboxes

A first-in, first-out queue between a producer and one reader. It may be bounded, in which case a
full mailbox refuses what is offered. It is closed once nobody is left who could send; what is
waiting by then can still be received. The keyboard is such a producer: its signals go to the run
loop.
-/
namespace Chip8

/-- What the keyboard tells the run loop. -/
inductive Signal where
  /-- The key with this code went down. -/
  | key (code : UInt8)
  | quit
  deriving DecidableEq, Repr

/-- A queue of items on their way to one reader. -/
structure Mailbox (ε : Type) where
  /-- What waits to be received, the oldest first. -/
  waiting : List ε
  /-- How many may wait; without a bound, any number. -/
  capacity : Option Nat
  /-- The producer has not hung up. -/
  connected : Bool
  /-- Somebody besides the producer can send, and never hangs up. -/
  shared : Bool
  deriving DecidableEq, Repr

inductive Receipt (ε : Type) where
  | item (content : ε)
  | empty
  /-- Nothing waits and nobody can send. -/
  | closed
  deriving DecidableEq, Repr

namespace Mailbox

variable {ε : Type}

def new (capacity : Option Nat) (shared : Bool) : Mailbox ε := ⟨[], capacity, true, shared⟩

def hasRoom (b : Mailbox ε) : Bool :=
  match b.capacity with
  | none => true
  | some bound => decide (b.waiting.length < bound)

/-- Puts an item behind those that wait, if there is room. -/
def deliver (b : Mailbox ε) (item : ε) : Mailbox ε :=
  if b.hasRoom then { b with waiting := b.waiting ++ [item] } else b

def accepts (b : Mailbox ε) : Bool := b.connected && b.hasRoom

/-- The producer offers an item, which is lost unless it is accepted. -/
def offer (b : Mailbox ε) (item : ε) : Mailbox ε := if b.accepts then b.deliver item else b

/-- The producer offers items in turn until one is refused; that one and the rest are kept. -/
def offerAll (b : Mailbox ε) : List ε → Mailbox ε × List ε
  | [] => (b, [])
  | item :: items => if b.accepts then (b.offer item).offerAll items else (b, item :: items)

def hangUp (b : Mailbox ε) : Mailbox ε := { b with connected := false }

def receive (b : Mailbox ε) : Receipt ε × Mailbox ε :=
  match b.waiting with
  | item :: rest => (.item item, { b with waiting := rest })
  | [] => (if b.connected || b.shared then .empty else .closed, b)

theorem waiting_offer (b : Mailbox ε) (item : ε) :
    (b.offer item).waiting = if b.accepts then b.waiting ++ [item] else b.waiting := by
  unfold offer
  split
  · next h =>
    have hr : b.hasRoom = true := (Bool.and_eq_true_iff.mp h).2
    simp only [deliver, hr, if_true]
  · rfl

theorem offer_eq (b : Mailbox ε) (item : ε) :
    b.offer item = { b with waiting := (b.offer item).waiting } := by
  unfold offer deliver
  split
  · split <;> rfl
  · rfl

theorem receive_of_cons {b : Mailbox ε} {item : ε} {rest : List ε} (h : b.waiting = item :: rest) :
    b.receive = (.item item, { b with waiting := rest }) := by
  simp only [receive, h]

theorem receive_of_nil {b : Mailbox ε} (h : b.waiting = []) :
    b.receive = (if b.connected || b.shared then .empty else .closed, b) := by
  simp only [receive, h]

end Mailbox
end Chip8
