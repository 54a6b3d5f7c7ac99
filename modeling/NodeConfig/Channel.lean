import NodeConfig.Power
import NodeConfig.Report
import NodeConfig.Text.Duration

namespace NodeConfig

/-- What a send does while a signal is pending. -/
inductive Policy where
  | coalesce
  /-- Waits up to a time in nanoseconds. -/
  | block (timeout : Nat)
  deriving DecidableEq, Repr

def Policy.text : Policy → String
  | .coalesce => "coalesce"
  | .block timeout => "block " ++ durationText timeout

structure Channel where
  name : String
  policy : Policy
  pending : Bool
  deriving DecidableEq, Repr

inductive SendOutcome where
  | delivered
  | coalesced
  deriving DecidableEq, Repr

def SendOutcome.name : SendOutcome → String
  | .delivered => "delivered"
  | .coalesced => "coalesced"

inductive SendFault where
  | full
  /-- Nobody received within a time in nanoseconds. -/
  | timeout (ns : Nat)
  deriving DecidableEq, Repr

def SendFault.message : SendFault → String
  | .full => "notification slot is full"
  | .timeout ns => "pending notification not consumed within " ++ durationText ns

/-- What a send gave, the channel after it, and what was reported. -/
structure Sent (α : Type) where
  result : Except SendFault α
  channel : Channel
  report : Report

namespace Channel

def notifyTarget : String := "dataplane_config::config::notify"

def make (name : String) (policy : Policy) : Channel := ⟨name, policy, false⟩

def raise (c : Channel) : Channel := { c with pending := true }

def trySend (c : Channel) : Sent Unit :=
  if c.pending then ⟨.error .full, c, .nothing⟩ else ⟨.ok (), c.raise, .nothing⟩

/-- A millisecond count of 64 bits. -/
def millis (ns : Nat) : Nat := ns / pow10 6 % pow2 64

def timeoutEvent (c : Channel) (ns : Nat) : Event :=
  ⟨.warn, notifyTarget, "Notification not consumed in time",
    [("channel", .quoted c.name), ("timeout_ms", .int (millis ns))]⟩

def sendWithin (c : Channel) (ns : Nat) : Sent Unit :=
  if c.pending then ⟨.error (.timeout ns), c, .event (c.timeoutEvent ns)⟩
  else ⟨.ok (), c.raise, .nothing⟩

def coalesce (c : Channel) : SendOutcome × Channel × Report :=
  if c.pending then
    (.coalesced, c.raise, .event ⟨.debug, notifyTarget,
      "Notification coalesced with pending signal", [("channel", .quoted c.name)]⟩)
  else (.delivered, c.raise, .nothing)

def counted : Except SendFault SendOutcome → SendResult
  | .ok .delivered => .delivered
  | .ok .coalesced => .coalesced
  | .error .full => .full
  | .error (.timeout _) => .timeout

def send (c : Channel) : Sent SendOutcome :=
  let s : Sent SendOutcome :=
    match c.policy with
    | .coalesce =>
      let (outcome, c, report) := c.coalesce
      ⟨.ok outcome, c, report⟩
    | .block timeout =>
      let s := c.sendWithin timeout
      ⟨s.result.map fun _ => .delivered, s.channel, s.report⟩
  ⟨s.result, s.channel, s.report ++ .count (.send c.name (counted s.result))⟩

def receive (c : Channel) : Bool × Channel := (c.pending, { c with pending := false })

/-- One who waits for `left` signals takes a pending one. Gives how many are waited for still. -/
def receiveWaiting (c : Channel) (left : Nat) : Nat × Channel :=
  if c.pending && 0 < left then (left - 1, c.receive.2) else (left, c)

/-- So many sends within a time, while another waits for `left` signals. -/
def pump (c : Channel) (ns left : Nat) : Nat → List (Except SendFault Unit) × Nat × Channel
  | 0 => ([], c.receiveWaiting left)
  | n + 1 =>
    let (left, c) := c.receiveWaiting left
    let sent := c.sendWithin ns
    let (results, left, c) := sent.channel.pump ns left n
    (sent.result :: results, left, c)

/-- A send while another waits for a signal, and whether that one received it. -/
def sendToWaiting (c : Channel) : Sent SendOutcome × Bool :=
  let (left, c) := c.receiveWaiting 1
  let sent := c.send
  let (left, c) := sent.channel.receiveWaiting left
  ({ sent with channel := c }, left = 0)

end Channel

end NodeConfig
