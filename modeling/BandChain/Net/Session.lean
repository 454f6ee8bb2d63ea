import BandChain.Net.TmApp

/-! `net/session.cc`: a session reads requests off a socket, and writes the replies to it. -/

namespace BandChain

/-- The application, and the buffers of a `Session`. -/
structure Session (σ : Type) where
  app : σ
  readBuffer : ByteString := []
  writeBuffer : ByteString := []

namespace Session

variable {σ : Type}

/-- `TendermintApplication::process`, and whether there was a request. What a request is and what is answered
is left to `handle`: protobuf is not part of the source. -/
def process (handle : ByteString → Exec Stop σ ByteString) : Exec Stop (Session σ) Bool := fun s =>
  match TmApp.takeRequest s.readBuffer with
  | (.error e, readBuffer) => (.error e, { s with readBuffer })
  | (.ok none, _) => (.ok false, s)
  | (.ok (some payload), readBuffer) =>
    match handle payload s.app with
    | (.error e, app) => (.error e, { s with app, readBuffer })
    | (.ok res, app) => (.ok true, { app, readBuffer, writeBuffer := s.writeBuffer ++ TmApp.frame res })

/-- The loop of `process_read`. A request takes a byte at least, so the length of the buffer bounds the rounds; where it takes none,
as no request of less than four gigabytes does, the loop has no end. -/
def drain (handle : ByteString → Exec Stop σ ByteString) : Nat → Exec Stop (Session σ) Unit
  | 0 => Exec.stop .crash
  | fuel + 1 => do if ← process handle then drain handle fuel else return ()

def processWrite (length : Nat) : Exec Stop (Session σ) Unit :=
  Exec.modify fun s => { s with writeBuffer := s.writeBuffer.drop length }

/-- `async_write` with its handler: what goes to the socket. -/
def asyncWrite : Exec Stop (Session σ) ByteString := do
  let s ← Exec.get
  if s.writeBuffer = [] then return []
  else
    processWrite s.writeBuffer.length
    return s.writeBuffer

/-- `process_read` of the bytes that arrived in the socket's buffer. -/
def processRead (handle : ByteString → Exec Stop σ ByteString) (chunk : ByteString) : Exec Stop (Session σ) ByteString := do
  Exec.modify fun s => { s with readBuffer := s.readBuffer ++ chunk }
  let s ← Exec.get
  drain handle (s.readBuffer.length + 1)
  asyncWrite

/-- Chunks that arrive one after the other, and all that goes to the socket. -/
def serve (handle : ByteString → Exec Stop σ ByteString) : List ByteString → Exec Stop (Session σ) ByteString
  | [] => return []
  | chunk :: chunks => do
    let sent ← processRead handle chunk
    return sent ++ (← serve handle chunks)

end Session

end BandChain
