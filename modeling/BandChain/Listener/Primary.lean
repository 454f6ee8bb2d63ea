import BandChain.Contract.Contracts
import BandChain.Util.Msg

/-! `listener/primary.h` and `listener/primary.cc`, over any storage. -/

namespace BandChain.PrimaryListener

variable {σ : Type} [Storage σ]

open Storage

def init (genesis : GenesisMsg) : Exec Stop σ Unit := do
  switchToApply
  -- This account can use it to create more accounts later.
  create (.account genesis.account) (Account.init genesis.account genesis.verifyKey)
  -- This token is native to Band and is used to reward people.
  create (.token genesis.token) (Token.init genesis.token genesis.token Curve.linear)
  flush

def begin (_blk : BlockMsg) : Exec Stop σ Unit := reset

def commit (_blk : BlockMsg) : Exec Stop σ Unit := flush

/-- `data` would be used to verify the signature. -/
def validateTransaction (mode : PrimaryMode) (hdr : HeaderMsg) (_data : ByteString) : Exec Stop σ Unit := do
  match mode with
  | .check => switchToCheck
  | .apply => switchToApply
  load (.account hdr.user)
  Account.setNonce hdr.user hdr.nonce

def handle (_blk : BlockMsg) (hdr : HeaderMsg) : Msg → Exec Stop σ Response
  | .createAccount msg => do
    create (.account msg.user) (Account.init msg.user msg.vk)
    return .createAccount
  | .createToken msg => do
    create (.token msg.createdToken) (Token.init msg.createdToken msg.baseToken msg.curve)
    return .createToken
  | .mintToken msg => do
    load (.token msg.token)
    Token.mint msg.token hdr.user msg.value
    return .mintToken
  | .transferToken msg => do
    load (.token msg.token)
    Token.transfer msg.token hdr.user msg.dest msg.value
    return .transferToken
  | .buyToken msg => do
    load (.token msg.token)
    let spent ← Token.buy msg.token hdr.user msg.value
    return .buyToken { baseToken := ← Token.base msg.token, spent }
  | .sellToken msg => do
    load (.token msg.token)
    let received ← Token.sell msg.token hdr.user msg.value
    return .sellToken { baseToken := ← Token.base msg.token, received }
  | .addWikiEdge _ => return .addWikiEdge
  | .removeWikiEdge _ => return .removeWikiEdge

/-- `BOOST_SCOPE_EXIT`: `guard` runs when `body` returns and when it throws, not when the process ends. -/
def scopeExit {α : Type} (guard : Exec Stop σ Unit) (body : Exec Stop σ α) : Exec Stop σ α := fun s =>
  match body s with
  | (.error .crash, t) => (.error .crash, t)
  | (result, t) =>
    match inDestructor guard t with
    | (.ok _, u) => (result, u)
    | (.error e, u) => (.error e, u)

def process (blk : BlockMsg) (hdr : HeaderMsg) (msg : Msg) : Exec Stop σ Response :=
  scopeExit reset do
    switchToApply
    let result ← handle blk hdr msg
    flush
    return result

end BandChain.PrimaryListener
