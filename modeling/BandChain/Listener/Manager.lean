import BandChain.Listener.Primary

/-!
`listener/manager.cc`, and the runs of a node: calls on raw bytes, one after the other, until the
process ends.
-/

namespace BandChain

inductive Notice where
  | init (genesis : GenesisMsg)
  | begin (blk : BlockMsg)
  | handle (blk : BlockMsg) (hdr : HeaderMsg) (msg : Msg) (res : Response)
  | commit (blk : BlockMsg)
  deriving DecidableEq

/-- `ListenerManager`. The primary listener is its storage; the other listeners are all told the same. -/
structure ListenerManager (σ : Type) where
  primary : Option σ
  notices : List Notice := []
  block : BlockMsg := {}

namespace ListenerManager

variable {σ : Type}

/-- One reading from the front of `buf`, and the buffer after it. -/
def consume {α : Type} (read : Decoder α) (buf : ByteString) : Except Stop (α × ByteString) :=
  match read buf with
  | (.ok a, rest) => .ok (a, rest)
  | (.error e, _) => .error e

/-- The header, the part of `raw` that is signed, and the buffer after the header. -/
def parseHeader [Sha256] (raw : ByteString) : Except Stop (HeaderMsg × ByteString × ByteString) := do
  let (user, buf) ← consume (Serial.read (α := Ident)) raw
  let (sig, buf) ← consume (Serial.read (α := Signature)) buf
  let dataSize := buf.length
  let (nonce, buf) ← consume (Serial.read (α := UInt64)) buf
  return ({ user, sig, nonce, hash := sha256 raw }, raw.drop (raw.length - dataSize), buf)

/-- A transaction as a client writes it. -/
def writeTx (user : Ident) (sig : Signature) (nonce : UInt64) (msg : Msg) : ByteString :=
  Serial.write user ++ Serial.write sig ++ Serial.write nonce ++ Serial.write msg.type ++ msg.write

/-- A call to the primary listener, or what is done without one. -/
def onPrimary {α : Type} (call : Exec Stop σ α) (otherwise : Except Stop α) : Exec Stop (ListenerManager σ) α :=
  fun m =>
    match m.primary with
    | none => (otherwise, m)
    | some storage => ((call storage).1, { m with primary := some (call storage).2 })

def notify (notice : Notice) : Exec Stop (ListenerManager σ) Unit :=
  Exec.modify fun m => { m with notices := m.notices ++ [notice] }

/-- The genesis that `initChain` makes up. -/
def genesis : GenesisMsg where
  account := ⟨Str.fold .inSensitive (ascii "BandGod"), by decide +kernel⟩
  verifyKey := default
  token := ⟨Str.fold .inSensitive (ascii "Band"), by decide +kernel⟩

variable [Storage σ]

def initChain (_raw : ByteString) : Exec Stop (ListenerManager σ) Unit := do
  onPrimary (PrimaryListener.init genesis) (.ok ())
  notify (.init genesis)

/-- The proposer is not recorded, and the height counts from 0 again in every block. -/
def beginBlock (timestamp : UInt64) (_proposer : Address) : Exec Stop (ListenerManager σ) Unit := do
  let block : BlockMsg := { timestamp, height := 0 + 1 }
  Exec.modify fun m => { m with block }
  onPrimary (PrimaryListener.begin block) (.ok ())
  notify (.begin block)

def checkTransaction [Sha256] (raw : ByteString) : Exec Stop (ListenerManager σ) Unit := do
  let m ← Exec.get
  if m.primary.isNone then Exec.stop (.throw (.failure .noPrimary))
  let (hdr, data, _) ← Exec.ofExcept (parseHeader raw)
  onPrimary (PrimaryListener.validateTransaction .check hdr data) (.ok ())

def applyTransaction [Sha256] (raw rawResult : ByteString) : Exec Stop (ListenerManager σ) ByteString := do
  let (hdr, data, buf) ← Exec.ofExcept (parseHeader raw)
  let (msgType, buf) ← Exec.ofExcept (consume (Serial.read (α := MsgType)) buf)
  onPrimary (PrimaryListener.validateTransaction .apply hdr data) (.ok ())
  let (msg, _) ← Exec.ofExcept (consume (Msg.read msgType) buf)
  let block := (← Exec.get).block
  let res ← onPrimary (PrimaryListener.process block hdr msg) (Response.read msgType rawResult).1
  notify (.handle block hdr msg res)
  return res.write

def commitBlock : Exec Stop (ListenerManager σ) Unit := do
  let block := (← Exec.get).block
  onPrimary (PrimaryListener.commit block) (.ok ())
  notify (.commit block)

end ListenerManager

/-! ### Runs -/

inductive Call where
  | initChain (raw : ByteString)
  | beginBlock (timestamp : UInt64) (proposer : Address)
  | checkTransaction (raw : ByteString)
  | applyTransaction (raw rawResult : ByteString)
  | commitBlock
  deriving DecidableEq

def Call.exec {σ : Type} [Storage σ] [Sha256] : Call → Exec Stop (ListenerManager σ) ByteString
  | initChain raw => do ListenerManager.initChain raw; return []
  | beginBlock timestamp proposer => do ListenerManager.beginBlock timestamp proposer; return []
  | checkTransaction raw => do ListenerManager.checkTransaction raw; return []
  | applyTransaction raw rawResult => ListenerManager.applyTransaction raw rawResult
  | commitBlock => do ListenerManager.commitBlock; return []

/-- A call that was made, how it ended, and the manager after it. -/
structure Record (σ : Type) where
  call : Call
  outcome : Except Stop ByteString
  after : ListenerManager σ

/-- A node: its manager, the calls made so far, and whether the process has ended. -/
structure Node (σ : Type) where
  manager : ListenerManager σ
  history : List (Record σ) := []
  down : Bool := false

def crashed : Except Stop ByteString → Bool
  | .error .crash => true
  | .error (.throw _) | .ok _ => false

namespace Node

variable {σ : Type}

/-- A node whose primary listener was just set up on a storage. -/
def start (storage : σ) : Node σ := { manager := { primary := some storage } }

variable [Storage σ] [Sha256]

def step (n : Node σ) (call : Call) : Node σ :=
  if n.down then n
  else
    match call.exec n.manager with
    | (outcome, after) =>
      { manager := after
        history := n.history ++ [{ call, outcome, after }]
        down := crashed outcome }

def run (n : Node σ) (calls : List Call) : Node σ := calls.foldl step n

end Node

end BandChain
