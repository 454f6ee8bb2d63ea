import BandChain.Listener.Abi
import BandChain.Listener.Effect

/-! A client that knows the text of the interface, and how values of the basic types are written, writes what the node reads. -/

namespace BandChain

namespace Client

def member (key : ByteString) : Json.Value → Option Json.Value
  | .object members => members.lookup key
  | .number _ | .string _ | .array _ => none

def number : Json.Value → Option Nat
  | .number n => some n
  | .string _ | .array _ | .object _ => none

def string : Json.Value → Option ByteString
  | .string s => some s
  | .number _ | .array _ | .object _ => none

def items : Json.Value → Option (List Json.Value)
  | .array items => some items
  | .number _ | .string _ | .object _ => none

/-- The parts of "name:Type". -/
def parts (s : ByteString) : ByteString × ByteString := (s.takeWhile (· != 0x3A), (s.dropWhile (· != 0x3A)).drop 1)

/-- The number and the members of a message type, as the interface names them. -/
def input (interface : Json.Value) (name : ByteString) : Option (Nat × Members) := do
  let tx ← member name interface
  let id ← number (← member (ascii "ID") tx)
  let members ← (← items (← member (ascii "Input") tx)).mapM string
  return (id, members.map parts)

inductive Argument where
  | ident (val : Ident)
  | nodeID (val : NodeID)
  | verifyKey (val : VerifyKey)
  | uint256 (val : UInt256)
  | curve (val : Curve)

def Argument.typeName : Argument → ByteString
  | ident _ => ascii "Ident"
  | nodeID _ => ascii "NodeID"
  | verifyKey _ => ascii "VerifyKey"
  | uint256 _ => ascii "uint256_t"
  | curve _ => ascii "Curve"

def Argument.write : Argument → ByteString
  | ident val => Serial.write val
  | nodeID val => Serial.write val
  | verifyKey val => Serial.write val
  | uint256 val => Serial.write val
  | curve val => Serial.write val

/-- The argument of a member, if it has the type of the member. -/
def argument (arguments : List (ByteString × Argument)) (member : ByteString × ByteString) : Option ByteString := do
  let a ← arguments.lookup member.1
  if a.typeName = member.2 then some a.write else none

/-- A transaction after its header: the number of the type, and the arguments in the order of the members. -/
def encode (abi name : ByteString) (arguments : List (ByteString × Argument)) : Option ByteString := do
  let (id, members) ← input (← Json.parse abi) name
  let written ← members.mapM (argument arguments)
  return varintEncode id ++ written.flatten

end Client

open Client (Argument)

/-- The members of a message with their values. -/
def Msg.arguments : Msg → List (ByteString × Argument)
  | createAccount msg => [(ascii "vk", .verifyKey msg.vk), (ascii "user", .ident msg.user)]
  | createToken msg =>
    [(ascii "baseToken", .ident msg.baseToken), (ascii "createdToken", .ident msg.createdToken), (ascii "curve", .curve msg.curve)]
  | mintToken msg => [(ascii "token", .ident msg.token), (ascii "value", .uint256 msg.value)]
  | transferToken msg => [(ascii "token", .ident msg.token), (ascii "dest", .ident msg.dest), (ascii "value", .uint256 msg.value)]
  | buyToken msg => [(ascii "token", .ident msg.token), (ascii "value", .uint256 msg.value)]
  | sellToken msg => [(ascii "token", .ident msg.token), (ascii "value", .uint256 msg.value)]
  | addWikiEdge msg | removeWikiEdge msg =>
    [(ascii "subject", .nodeID msg.subject), (ascii "predicate", .nodeID msg.predicate), (ascii "object", .nodeID msg.object),
      (ascii "label", .nodeID msg.label)]

theorem input_interface (type : MsgType) :
    Client.input ListenerManager.interface type.name = some (type.toIntegral, Msg.members type) := by
  cases type <;> decide +kernel

theorem mapM_arguments {arguments : List (ByteString × Argument)} {fields : List (ByteString × Argument)}
    (supplied : ∀ field ∈ fields, arguments.lookup field.1 = some field.2) :
    (fields.map fun field => (field.1, field.2.typeName)).mapM (Client.argument arguments) =
      some (fields.map fun field => field.2.write) := by
  induction fields with
  | nil => rfl
  | cons field fields ih =>
    have first : Client.argument arguments (field.1, field.2.typeName) = some field.2.write := by
      simp only [Client.argument, supplied field List.mem_cons_self, Option.bind_eq_bind, Option.bind_some, if_true]
    rw [List.map_cons, List.mapM_cons, first, ih fun other mem => supplied other (List.mem_cons_of_mem _ mem)]
    rfl

/-- The members that the interface names are those of the message, in the order in which it is written. -/
theorem members_arguments (msg : Msg) :
    Msg.members msg.type = msg.arguments.map (fun field => (field.1, field.2.typeName)) ∧
      (msg.arguments.map fun field => field.2.write).flatten = msg.write := by
  cases msg <;> refine ⟨rfl, ?_⟩ <;> simp only [Msg.arguments, List.map_cons, List.map_nil, List.flatten_cons, List.flatten_nil,
    List.append_nil, Argument.write, Msg.write, Serial.write, List.append_assoc]

theorem encode_arguments {msg : Msg} {arguments : List (ByteString × Argument)}
    (supplied : ∀ field ∈ msg.arguments, arguments.lookup field.1 = some field.2) :
    Client.encode ListenerManager.abi msg.type.name arguments = some (Serial.write msg.type ++ msg.write) := by
  obtain ⟨members, written⟩ := members_arguments msg
  have each := mapM_arguments supplied
  rw [← members] at each
  simp only [Client.encode, ListenerManager.abi, Json.parse_dump, Option.bind_eq_bind, Option.bind_some, input_interface, each, written]
  rfl

/-- From the text of the interface, the name of a message type and a value for each of its members, in whatever order these are
given, a client writes a transaction that the node reads as the message of that type with those values. -/
theorem interface_suffices [Sha256] {msg : Msg} (whole : msg.Intact) {arguments : List (ByteString × Argument)}
    (supplied : ∀ field ∈ msg.arguments, arguments.lookup field.1 = some field.2) (user : Ident) (sig : Signature) (nonce : UInt64) :
    ∃ body hdr data left, Client.encode ListenerManager.abi msg.type.name arguments = some body ∧
      ListenerManager.parseTx (Serial.write user ++ Serial.write sig ++ Serial.write nonce ++ body) = .ok (hdr, data, msg.type, left) ∧
      hdr.user = user ∧ hdr.sig = sig ∧ hdr.nonce = nonce ∧ Msg.read msg.type left = (.ok msg, []) := by
  obtain ⟨hash, data, parsed⟩ := ListenerManager.parseTx_write user sig nonce msg.type msg.write
  have read := Msg.read_write whole []
  rw [List.append_nil] at read
  exact ⟨_, _, data, msg.write, encode_arguments supplied, parsed, rfl, rfl, rfl, read⟩

/-- A transfer whose members are given from the last to the first. -/
theorem interface_suffices_transfer :
    letI := zeroSha256
    ∃ body hdr data left, Client.encode ListenerManager.abi (ascii "TransferToken")
        [(ascii "value", .uint256 7), (ascii "dest", .ident default), (ascii "token", .ident ListenerManager.genesis.token)] = some body ∧
      ListenerManager.parseTx (Serial.write ListenerManager.genesis.account ++ Serial.write (default : Signature) ++
        Serial.write (1 : UInt64) ++ body) = .ok (hdr, data, .transferToken, left) ∧
      hdr.user = ListenerManager.genesis.account ∧ hdr.sig = default ∧ hdr.nonce = 1 ∧
      Msg.read .transferToken left = (.ok (.transferToken ⟨ListenerManager.genesis.token, default, 7⟩), []) := by
  let _ := zeroSha256
  have whole : (Msg.transferToken ⟨ListenerManager.genesis.token, default, 7⟩).Intact := trivial
  refine interface_suffices whole ?_ _ _ _
  rintro field (_ | ⟨_, _ | ⟨_, _ | ⟨_, mem⟩⟩⟩)
  · rfl
  · rfl
  · rfl
  · cases mem

end BandChain
