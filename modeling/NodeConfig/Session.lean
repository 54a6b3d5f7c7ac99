import NodeConfig.Store

namespace NodeConfig

inductive Action where
  | install (options : Options) (logging : LogOptions)
  | load (schema : Bytes) (host : String) (port : Nat)
  | save
  | setText (f : TextField) (s : String)
  | setFetched (b : Bool)
  | replace (x : Identity)
  /-- Takes over the identity of another store, by number. -/
  | replaceFrom (other : Nat)
  | applyDefaults
  | changeKey (key : String)
  | reloadKey
  /-- Announces the key without waiting and without counting. -/
  | tryAnnounce
  | requestRestart
  | receiveKey
  | receiveRestart

inductive Answer where
  | done
  | config (r : Except ConfigFault Unit)
  | sent (r : Except SendFault Unit)
  | outcome (o : SendOutcome)
  | received (b : Bool)

structure Session where
  stores : List Store
  world : World

namespace Session

def start (w : World) : Session := ⟨[], w⟩

def identityOf (t : Session) (i : Nat) : Identity := (t.stores[i]?.map (·.identity)).getD .empty

def add (t : Session) (timeout : Nat) : Session := { t with stores := t.stores ++ [.make timeout] }

def act (t : Session) (s : Store) (a : Action) : Step Answer :=
  let changed (answer : Answer) (s : Store) : Step Answer := ⟨answer, s, t.world, .nothing⟩
  let withIdentity (x : Identity) : Step Answer := changed .done { s with identity := x }
  match a with
  | .install options logging => changed .done (s.install options logging)
  | .load schema host port => (s.load t.world schema host port).map .config
  | .save => (s.save t.world).map .config
  | .setText f v => withIdentity (s.identity.set f v)
  | .setFetched b => withIdentity { s.identity with certFetched := b }
  | .replace x => withIdentity x
  | .replaceFrom other => withIdentity (t.identityOf other)
  | .applyDefaults =>
    let d := s.identity.withDefaults t.world.names
    ⟨.done, { s with identity := d.identity }, { t.world with names := d.names }, d.report⟩
  | .changeKey key => (s.changeKey t.world key).map .sent
  | .reloadKey => (s.reloadKey t.world).map .sent
  | .tryAnnounce =>
    let sent := s.keyChanged.trySend
    ⟨.sent sent.result, { s with keyChanged := sent.channel }, t.world, sent.report⟩
  | .requestRestart => (s.requestRestart t.world).map .outcome
  | .receiveKey =>
    let (b, c) := s.keyChanged.receive
    changed (.received b) { s with keyChanged := c }
  | .receiveRestart =>
    let (b, c) := s.restart.receive
    changed (.received b) { s with restart := c }

/-- One action on the store of a number. Nothing happens where there is no such store. -/
def perform (t : Session) (i : Nat) (a : Action) : Answer × Report × Session :=
  match t.stores[i]? with
  | none => (.done, .nothing, t)
  | some s =>
    let step := t.act s a
    (step.result, step.report, ⟨t.stores.set i step.store, step.world⟩)

def run (t : Session) : List (Nat × Action) → List Answer × Report × Session
  | [] => ([], .nothing, t)
  | (i, a) :: rest =>
    let (answer, report, t) := t.perform i a
    let (answers, more, t) := t.run rest
    (answer :: answers, report ++ more, t)

end Session

end NodeConfig
