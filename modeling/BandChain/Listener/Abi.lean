import BandChain.Lib.Json
import BandChain.Lib.OrderedSet
import BandChain.Util.Msg

/-! `interface()` of `util/msgimpl.h`, and `ListenerManager::abi`. -/

namespace BandChain

namespace MsgType

def all : List MsgType := [createAccount, createToken, mintToken, transferToken, buyToken, sellToken, addWikiEdge, removeWikiEdge]

def name : MsgType → ByteString
  | createAccount => ascii "CreateAccount"
  | createToken => ascii "CreateToken"
  | mintToken => ascii "MintToken"
  | transferToken => ascii "TransferToken"
  | buyToken => ascii "BuyToken"
  | sellToken => ascii "SellToken"
  | addWikiEdge => ascii "AddWikiEdge"
  | removeWikiEdge => ascii "RemoveWikiEdge"

end MsgType

/-- The members of a struct: what it is called, and its type. -/
abbrev Members := List (ByteString × ByteString)

def Msg.members : MsgType → Members
  | .createAccount => [(ascii "vk", ascii "VerifyKey"), (ascii "user", ascii "Ident")]
  | .createToken => [(ascii "baseToken", ascii "Ident"), (ascii "createdToken", ascii "Ident"), (ascii "curve", ascii "Curve")]
  | .mintToken => [(ascii "token", ascii "Ident"), (ascii "value", ascii "uint256_t")]
  | .transferToken => [(ascii "token", ascii "Ident"), (ascii "dest", ascii "Ident"), (ascii "value", ascii "uint256_t")]
  | .buyToken => [(ascii "token", ascii "Ident"), (ascii "value", ascii "uint256_t")]
  | .sellToken => [(ascii "token", ascii "Ident"), (ascii "value", ascii "uint256_t")]
  | .addWikiEdge | .removeWikiEdge =>
    [(ascii "subject", ascii "NodeID"), (ascii "predicate", ascii "NodeID"), (ascii "object", ascii "NodeID"),
      (ascii "label", ascii "NodeID")]

def Response.members : MsgType → Members
  | .buyToken => [(ascii "baseToken", ascii "Ident"), (ascii "spent", ascii "uint256_t")]
  | .sellToken => [(ascii "baseToken", ascii "Ident"), (ascii "received", ascii "uint256_t")]
  | .createAccount | .createToken | .mintToken | .transferToken | .addWikiEdge | .removeWikiEdge => []

/-- `interface()` of a struct with these members. -/
def Members.interface (members : Members) : Json.Value :=
  .array (members.map fun (name, type) => .string (name ++ ascii ":" ++ type))

/-- `json::operator[]` with a key that is new. The members of an object are a `std::map`. -/
def assignKey (key : ByteString) (v : Json.Value) (members : List (ByteString × Json.Value)) : List (ByteString × Json.Value) :=
  OrderedSet.insert (fun a b => decide (a.1 < b.1)) (key, v) members

def txInterface (type : MsgType) : Json.Value :=
  .object (assignKey (ascii "ID") (.number type.toIntegral)
    (assignKey (ascii "Output") (Response.members type).interface
      (assignKey (ascii "Input") (Msg.members type).interface [])))

def ListenerManager.interface : Json.Value :=
  .object (MsgType.all.foldl (fun members type => assignKey type.name (txInterface type) members) [])

def ListenerManager.abi : ByteString := ListenerManager.interface.dump

end BandChain
