import Mathlib
import NodeConfig.Channel

namespace NodeConfig

namespace Traffic

variable {ι : Type}

inductive Call where
  | notify
  | tryNotify
  /-- Waits up to a time in nanoseconds. -/
  | notifyWithin (ns : ℕ)
  | tryRecv
  | recvWithin (ns : ℕ)
  | recvBlocking
  | recv
  deriving DecidableEq

inductive Stage where
  | idle
  /-- Free to run; the slot is to be looked at, or a task to be registered first. -/
  | ready (call : Call)
  /-- A registered task that has not looked yet, and whether it was woken since. -/
  | registered (woken : Bool)
  | parked (call : Call)
  /-- The slot was filled; the parked are to be woken, then the registered. -/
  | raised
  /-- The registered are to be woken. -/
  | waking
  /-- The slot was emptied; the parked are to be woken. -/
  | taken
  deriving DecidableEq

def Stage.unpark : Stage → Stage
  | .parked .recv => .parked .recv
  | .parked call => .ready call
  | stage => stage

/-- All registered tasks are woken, also before they park. -/
def Stage.wake : Stage → Stage
  | .parked .recv => .ready .recv
  | .registered _ => .registered true
  | stage => stage

def Call.parks (c : Channel) : Call → Bool
  | .notify => c.policy ≠ .coalesce && c.pending
  | .notifyWithin _ => c.pending
  | .recvWithin _ => !c.pending
  | .recvBlocking => !c.pending
  | _ => false

structure State (ι : Type) where
  channel : Channel
  stage : ι → Stage

def State.begin (c : Channel) : State ι := ⟨c, fun _ => .idle⟩

inductive Event (ι : Type) where
  | call (t : ι) (call : Call)
  | notified (t : ι) (result : Except SendFault SendOutcome)
  | sent (t : ι) (result : Except SendFault Unit)
  | received (t : ι) (taken : Bool)
  | park (t : ι)
  | register (t : ι)
  | retry (t : ι)
  | unpark (t : ι)
  | wake (t : ι)
  /-- A parked thread runs again by itself: its time may be up. -/
  | stir (t : ι)
  | cancel (t : ι)

variable [DecidableEq ι]

def State.move (s : State ι) (t : ι) (stage : Stage) : State ι :=
  { s with stage := Function.update s.stage t stage }

/-- A send has looked at the slot: the channel is as it left it, and if it filled the slot it has to
wake others. -/
def State.afterSend {α : Type} (s : State ι) (t : ι) (sent : Sent α) : State ι :=
  { s.move t (match sent.result with | .ok _ => .raised | .error _ => .idle) with
    channel := sent.channel }

def State.afterReceive (s : State ι) (t : ι) (received : Bool × Channel) : State ι :=
  { s.move t (if received.1 then .taken else .idle) with channel := received.2 }

/-- One step of a thread or task. A send that has to wait, or a receive with a time, may also end
without success where it could park: its time may be up whenever it looks. -/
inductive Step (s : State ι) : Event ι → State ι → Prop
  | call {t : ι} (h : s.stage t = .idle) (c : Call) : Step s (.call t c) (s.move t (.ready c))
  | notify {t : ι} (h : s.stage t = .ready .notify) :
      Step s (.notified t s.channel.send.result) (s.afterSend t s.channel.send)
  | tryNotify {t : ι} (h : s.stage t = .ready .tryNotify) :
      Step s (.sent t s.channel.trySend.result) (s.afterSend t s.channel.trySend)
  | notifyWithin {t : ι} {ns : ℕ} (h : s.stage t = .ready (.notifyWithin ns)) :
      Step s (.sent t (s.channel.sendWithin ns).result) (s.afterSend t (s.channel.sendWithin ns))
  | tryRecv {t : ι} (h : s.stage t = .ready .tryRecv) :
      Step s (.received t s.channel.receive.1) (s.afterReceive t s.channel.receive)
  | recvWithin {t : ι} {ns : ℕ} (h : s.stage t = .ready (.recvWithin ns)) :
      Step s (.received t s.channel.receive.1) (s.afterReceive t s.channel.receive)
  | recvBlocking {t : ι} (h : s.stage t = .ready .recvBlocking) (hp : s.channel.pending = true) :
      Step s (.received t s.channel.receive.1) (s.afterReceive t s.channel.receive)
  | recv {t : ι} {woken : Bool} (h : s.stage t = .registered woken)
      (hp : s.channel.pending = true) :
      Step s (.received t s.channel.receive.1) (s.afterReceive t s.channel.receive)
  | park {t : ι} {c : Call} (h : s.stage t = .ready c) (hp : c.parks s.channel = true) :
      Step s (.park t) (s.move t (.parked c))
  | register {t : ι} (h : s.stage t = .ready .recv) :
      Step s (.register t) (s.move t (.registered false))
  | retry {t : ι} {woken : Bool} (h : s.stage t = .registered woken)
      (hp : s.channel.pending = false) :
      Step s (.retry t) (s.move t (if woken then .ready .recv else .parked .recv))
  | unparkSent {t : ι} (h : s.stage t = .raised) :
      Step s (.unpark t) (State.move { s with stage := fun u => (s.stage u).unpark } t .waking)
  | unparkTaken {t : ι} (h : s.stage t = .taken) :
      Step s (.unpark t) (State.move { s with stage := fun u => (s.stage u).unpark } t .idle)
  | wake {t : ι} (h : s.stage t = .waking) :
      Step s (.wake t) (State.move { s with stage := fun u => (s.stage u).wake } t .idle)
  | stir {t : ι} {c : Call} (h : s.stage t = .parked c) (hc : c ≠ .recv) :
      Step s (.stir t) (s.move t (.ready c))
  | cancel {t : ι} (h : s.stage t = .ready .recv ∨ s.stage t = .parked .recv) :
      Step s (.cancel t) (s.move t .idle)

end Traffic

end NodeConfig
