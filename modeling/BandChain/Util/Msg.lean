import BandChain.Util.Equation
import BandChain.Util.Text

/-!
`util/msg.h`: the messages of a transaction, the responses to them, and the header and block
records that go with them. Fields are written and read in the order of their declaration.
-/

namespace BandChain

/-- The hash function of `crypto/sha256.h`; the library behind it is not part of the source. -/
class Sha256 where
  sha256 : ByteString → Hash

export Sha256 (sha256)

/-- A stand-in to run the node with; nothing below depends on the hash. -/
@[reducible] def zeroSha256 : Sha256 := ⟨fun _ => default⟩

inductive MsgType where
  | createAccount | createToken | mintToken | transferToken | buyToken | sellToken | addWikiEdge | removeWikiEdge
  deriving DecidableEq

namespace MsgType

def toIntegral : MsgType → Nat
  | createAccount => 0
  | createToken => 1
  | mintToken => 2
  | transferToken => 3
  | buyToken => 4
  | sellToken => 5
  | addWikiEdge => 6
  | removeWikiEdge => 7

/-- `MsgType::_from_integral`. -/
def fromIntegral : Nat → Except Stop MsgType
  | 0 => .ok createAccount
  | 1 => .ok createToken
  | 2 => .ok mintToken
  | 3 => .ok transferToken
  | 4 => .ok buyToken
  | 5 => .ok sellToken
  | 6 => .ok addWikiEdge
  | 7 => .ok removeWikiEdge
  | _ => .error (.throw (.error .invalidMsgType))

instance : Serial MsgType where
  write type := varintEncode type.toIntegral
  read := do Exec.ofExcept (fromIntegral (← varintDecode .uint16))

instance : LawfulSerial MsgType where
  read_write type rest _ := by
    have run := varintDecode_encode (T := .uint16) (v := type.toIntegral) (by cases type <;> decide) rest
    simp only [Serial.read, Serial.write, Exec.bind_of_ok run, Exec.ofExcept_apply]
    cases type <;> rfl

end MsgType

structure GenesisMsg where
  account : Ident
  verifyKey : VerifyKey
  token : Ident
  deriving DecidableEq

structure BlockMsg where
  height : UInt64 := 0
  timestamp : UInt64 := 0
  proposer : Address := default
  deriving DecidableEq

structure HeaderMsg where
  user : Ident
  sig : Signature
  nonce : UInt64
  hash : Hash
  deriving DecidableEq

/-! ### Messages -/

structure CreateAccountMsg where
  vk : VerifyKey
  user : Ident
  deriving DecidableEq

structure CreateTokenMsg where
  baseToken : Ident
  createdToken : Ident
  curve : Curve
  deriving DecidableEq

structure MintTokenMsg where
  token : Ident
  value : UInt256
  deriving DecidableEq

structure TransferTokenMsg where
  token : Ident
  dest : Ident
  value : UInt256
  deriving DecidableEq

structure BuyTokenMsg where
  token : Ident
  value : UInt256
  deriving DecidableEq

structure SellTokenMsg where
  token : Ident
  value : UInt256
  deriving DecidableEq

structure WikiEdgeMsg where
  subject : NodeID
  predicate : NodeID
  object : NodeID
  label : NodeID
  deriving DecidableEq

instance : Serial CreateAccountMsg where
  write msg := Serial.write msg.vk ++ Serial.write msg.user
  read := do return { vk := ← Serial.read, user := ← Serial.read }

instance : Serial CreateTokenMsg where
  intact msg := intact msg.curve
  write msg := Serial.write msg.baseToken ++ Serial.write msg.createdToken ++ Serial.write msg.curve
  read := do return { baseToken := ← Serial.read, createdToken := ← Serial.read, curve := ← Serial.read }

instance : Serial MintTokenMsg where
  write msg := Serial.write msg.token ++ Serial.write msg.value
  read := do return { token := ← Serial.read, value := ← Serial.read }

instance : Serial TransferTokenMsg where
  write msg := Serial.write msg.token ++ Serial.write msg.dest ++ Serial.write msg.value
  read := do return { token := ← Serial.read, dest := ← Serial.read, value := ← Serial.read }

instance : Serial BuyTokenMsg where
  write msg := Serial.write msg.token ++ Serial.write msg.value
  read := do return { token := ← Serial.read, value := ← Serial.read }

instance : Serial SellTokenMsg where
  write msg := Serial.write msg.token ++ Serial.write msg.value
  read := do return { token := ← Serial.read, value := ← Serial.read }

instance : Serial WikiEdgeMsg where
  write msg := Serial.write msg.subject ++ Serial.write msg.predicate ++ Serial.write msg.object ++
    Serial.write msg.label
  read := do
    return { subject := ← Serial.read, predicate := ← Serial.read, object := ← Serial.read, label := ← Serial.read }

/-! ### Structures are read back field by field -/

section

variable {α β γ δ ε : Type} [Serial α] [LawfulSerial α] [Serial β] [LawfulSerial β] [Serial γ] [LawfulSerial γ] [Serial δ]
  [LawfulSerial δ] {a : α} {b : β} {c : γ} {d : δ}

omit [Serial β] [LawfulSerial β] in
theorem read_one (make : α → β) (wholeA : intact a = true) (rest : ByteString) :
    (do return make (← Serial.read) : Decoder β) (Serial.write a ++ rest) = (.ok (make a), rest) := by
  rw [read_bind wholeA]
  rfl

omit [Serial γ] [LawfulSerial γ] in
theorem read_two (make : α → β → γ) (wholeA : intact a = true) (wholeB : intact b = true) (rest : ByteString) :
    (do return make (← Serial.read) (← Serial.read) : Decoder γ) (Serial.write a ++ Serial.write b ++ rest) =
      (.ok (make a b), rest) := by
  rw [List.append_assoc, read_bind wholeA, read_bind wholeB]
  rfl

omit [Serial δ] [LawfulSerial δ] in
theorem read_three (make : α → β → γ → δ) (wholeA : intact a = true) (wholeB : intact b = true) (wholeC : intact c = true)
    (rest : ByteString) :
    (do return make (← Serial.read) (← Serial.read) (← Serial.read) : Decoder δ)
      (Serial.write a ++ Serial.write b ++ Serial.write c ++ rest) = (.ok (make a b c), rest) := by
  rw [List.append_assoc, List.append_assoc, read_bind wholeA, read_bind wholeB, read_bind wholeC]
  rfl

theorem read_four (make : α → β → γ → δ → ε) (wholeA : intact a = true) (wholeB : intact b = true) (wholeC : intact c = true)
    (wholeD : intact d = true) (rest : ByteString) :
    (do return make (← Serial.read) (← Serial.read) (← Serial.read) (← Serial.read) : Decoder ε)
      (Serial.write a ++ Serial.write b ++ Serial.write c ++ Serial.write d ++ rest) = (.ok (make a b c d), rest) := by
  rw [List.append_assoc, List.append_assoc, List.append_assoc, read_bind wholeA, read_bind wholeB, read_bind wholeC,
    read_bind wholeD]
  rfl

end

instance : LawfulSerial CreateAccountMsg where
  read_write _ rest _ := read_two CreateAccountMsg.mk rfl rfl rest

instance : LawfulSerial CreateTokenMsg where
  read_write _ rest whole := read_three CreateTokenMsg.mk rfl rfl whole rest

instance : LawfulSerial MintTokenMsg where
  read_write _ rest _ := read_two MintTokenMsg.mk rfl rfl rest

instance : LawfulSerial TransferTokenMsg where
  read_write _ rest _ := read_three TransferTokenMsg.mk rfl rfl rfl rest

instance : LawfulSerial BuyTokenMsg where
  read_write _ rest _ := read_two BuyTokenMsg.mk rfl rfl rest

instance : LawfulSerial SellTokenMsg where
  read_write _ rest _ := read_two SellTokenMsg.mk rfl rfl rest

instance : LawfulSerial WikiEdgeMsg where
  read_write _ rest _ := read_four WikiEdgeMsg.mk rfl rfl rfl rfl rest

/-- A message of any of the eight types. -/
inductive Msg where
  | createAccount (msg : CreateAccountMsg)
  | createToken (msg : CreateTokenMsg)
  | mintToken (msg : MintTokenMsg)
  | transferToken (msg : TransferTokenMsg)
  | buyToken (msg : BuyTokenMsg)
  | sellToken (msg : SellTokenMsg)
  | addWikiEdge (msg : WikiEdgeMsg)
  | removeWikiEdge (msg : WikiEdgeMsg)
  deriving DecidableEq

namespace Msg

def type : Msg → MsgType
  | createAccount _ => .createAccount
  | createToken _ => .createToken
  | mintToken _ => .mintToken
  | transferToken _ => .transferToken
  | buyToken _ => .buyToken
  | sellToken _ => .sellToken
  | addWikiEdge _ => .addWikiEdge
  | removeWikiEdge _ => .removeWikiEdge

def write : Msg → ByteString
  | createAccount msg => Serial.write msg
  | createToken msg => Serial.write msg
  | mintToken msg => Serial.write msg
  | transferToken msg => Serial.write msg
  | buyToken msg => Serial.write msg
  | sellToken msg => Serial.write msg
  | addWikiEdge msg => Serial.write msg
  | removeWikiEdge msg => Serial.write msg

def read : MsgType → Decoder Msg
  | .createAccount => do return createAccount (← Serial.read)
  | .createToken => do return createToken (← Serial.read)
  | .mintToken => do return mintToken (← Serial.read)
  | .transferToken => do return transferToken (← Serial.read)
  | .buyToken => do return buyToken (← Serial.read)
  | .sellToken => do return sellToken (← Serial.read)
  | .addWikiEdge => do return addWikiEdge (← Serial.read)
  | .removeWikiEdge => do return removeWikiEdge (← Serial.read)

/-- A message that can be copied and written: its curve has an equation. -/
def Intact : Msg → Prop
  | createToken msg => intact msg = true
  | createAccount _ | mintToken _ | transferToken _ | buyToken _ | sellToken _ | addWikiEdge _ | removeWikiEdge _ => True

theorem read_write {msg : Msg} (whole : msg.Intact) (rest : ByteString) : read msg.type (msg.write ++ rest) = (.ok msg, rest) := by
  cases msg <;> simp only [Msg.type, Msg.write, Msg.read]
  case createToken msg => exact read_one createToken whole rest
  all_goals exact read_one _ rfl rest

end Msg

/-! ### Responses -/

structure BuyTokenResponse where
  baseToken : Ident
  spent : UInt256
  deriving DecidableEq

structure SellTokenResponse where
  baseToken : Ident
  received : UInt256
  deriving DecidableEq

instance : Serial BuyTokenResponse where
  write res := Serial.write res.baseToken ++ Serial.write res.spent
  read := do return { baseToken := ← Serial.read, spent := ← Serial.read }

instance : Serial SellTokenResponse where
  write res := Serial.write res.baseToken ++ Serial.write res.received
  read := do return { baseToken := ← Serial.read, received := ← Serial.read }

instance : LawfulSerial BuyTokenResponse where
  read_write _ rest _ := read_two BuyTokenResponse.mk rfl rfl rest

instance : LawfulSerial SellTokenResponse where
  read_write _ rest _ := read_two SellTokenResponse.mk rfl rfl rest

/-- The response to a message of each type; six of the eight are empty. -/
inductive Response where
  | createAccount
  | createToken
  | mintToken
  | transferToken
  | buyToken (res : BuyTokenResponse)
  | sellToken (res : SellTokenResponse)
  | addWikiEdge
  | removeWikiEdge
  deriving DecidableEq

namespace Response

def write : Response → ByteString
  | buyToken res => Serial.write res
  | sellToken res => Serial.write res
  | createAccount | createToken | mintToken | transferToken | addWikiEdge | removeWikiEdge => []

def read : MsgType → Decoder Response
  | .createAccount => return createAccount
  | .createToken => return createToken
  | .mintToken => return mintToken
  | .transferToken => return transferToken
  | .buyToken => do return buyToken (← Serial.read)
  | .sellToken => do return sellToken (← Serial.read)
  | .addWikiEdge => return addWikiEdge
  | .removeWikiEdge => return removeWikiEdge

def type : Response → MsgType
  | createAccount => .createAccount
  | createToken => .createToken
  | mintToken => .mintToken
  | transferToken => .transferToken
  | buyToken _ => .buyToken
  | sellToken _ => .sellToken
  | addWikiEdge => .addWikiEdge
  | removeWikiEdge => .removeWikiEdge

theorem read_write (res : Response) (rest : ByteString) : read res.type (res.write ++ rest) = (.ok res, rest) := by
  cases res with
  | buyToken res | sellToken res =>
    simp only [Response.type, Response.write, Response.read]
    exact read_one _ rfl rest
  | createAccount | createToken | mintToken | transferToken | addWikiEdge | removeWikiEdge => rfl

end Response

end BandChain
