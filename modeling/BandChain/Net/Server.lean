import BandChain.Net.Session

/-! `net/server.cc`: a session on each connection that was accepted, and one application under all of them. -/

namespace BandChain

/-- What a session has asked of its socket, until the client is gone. -/
inductive Waiting where
  | read
  | write
  | closed
  deriving DecidableEq

/-- The buffers of a session, and what has gone over its socket so far. -/
structure Connection where
  readBuffer : ByteString := []
  writeBuffer : ByteString := []
  waiting : Waiting := .read
  received : ByteString := []
  sent : ByteString := []

/-- The handlers that the service calls. A handler that throws ends the process. -/
inductive NetEvent where
  | accepted
  | acceptFailed
  | read (i : Nat) (chunk : ByteString)
  | wrote (i : Nat)
  | failed (i : Nat)

structure Server (σ : Type) where
  app : σ
  connections : List Connection := []
  down : Bool := false

namespace Server

variable {σ : Type}

/-- `async_write`. With nothing to write, the session reads on. -/
def asyncWrite (c : Connection) : Connection :=
  { c with waiting := if c.writeBuffer.isEmpty then .read else .write }

/-- `process_read`, up to the reply on its way to the socket. -/
def processRead (handle : ByteString → Exec Stop σ ByteString) (chunk : ByteString) (c : Connection) (app : σ) :
    Except Stop Unit × Connection × σ :=
  let buf := c.readBuffer ++ chunk
  match Session.drain handle (buf.length + 1) { app, readBuffer := buf, writeBuffer := c.writeBuffer } with
  | (result, s) =>
    (result,
      asyncWrite { c with readBuffer := s.readBuffer, writeBuffer := s.writeBuffer, received := c.received ++ chunk },
      s.app)

/-- `process_write` of all that was handed to the socket. -/
def processWrite (c : Connection) : Connection :=
  { c with writeBuffer := [], waiting := .read, sent := c.sent ++ c.writeBuffer }

/-- A handler is called for what its session waits for; another event does not happen. -/
def step (handle : ByteString → Exec Stop σ ByteString) (s : Server σ) (event : NetEvent) : Server σ :=
  if s.down then s
  else
    match event with
    | .accepted => { s with connections := s.connections ++ [{}] }
    | .acceptFailed => { s with down := true }
    | .read i chunk =>
      match s.connections[i]? with
      | some c =>
        if c.waiting = .read then
          match processRead handle chunk c s.app with
          | (result, c, app) => { app, connections := s.connections.set i c, down := !result.isOk }
        else s
      | none => s
    | .wrote i =>
      match s.connections[i]? with
      | some c => if c.waiting = .write then { s with connections := s.connections.set i (processWrite c) } else s
      | none => s
    | .failed i =>
      match s.connections[i]? with
      | some c => { s with connections := s.connections.set i { c with waiting := .closed } }
      | none => s

def run (handle : ByteString → Exec Stop σ ByteString) (s : Server σ) (events : List NetEvent) : Server σ :=
  events.foldl (step handle) s

end Server

end BandChain
