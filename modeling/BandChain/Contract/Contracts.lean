import BandChain.Store.Storage

/-! `contract/account.cc` and `contract/token.cc`. The verification of signatures is commented out where it would be called. -/

namespace BandChain.Account

variable {σ : Type} [Storage σ]

open Storage (read assign)

def init (self : Ident) (verifyKey : VerifyKey) : Exec Stop σ Unit := do
  assign (.verifyKey self) verifyKey
  assign (.nonce self) (0 : UInt256)

def setNonce (self : Ident) (nonce : UInt64) : Exec Stop σ Unit := do
  let stored : UInt256 ← read (.nonce self)
  if UInt256.ofUInt64 nonce ≤ stored then
    Exec.stop (.throw (.error (.nonceTooSmall nonce.toNat stored.val)))
  else assign (.nonce self) (UInt256.ofUInt64 nonce)

end BandChain.Account

namespace BandChain.Token

variable {σ : Type} [Storage σ]

open Storage (load read assign)

def init (self baseToken : Ident) (curve : Curve) : Exec Stop σ Unit := do
  -- Verify that base token contract exists.
  load (.token baseToken)
  assign (.curveData self) curve
  assign (.baseIdent self) baseToken
  assign (.currentSupply self) (0 : UInt256)

def base (self : Ident) : Exec Stop σ Ident := read (.baseIdent self)

def mint (self receiver : Ident) (value : UInt256) : Exec Stop σ Unit := do
  let balance : UInt256 ← read (.balances self receiver)
  assign (.balances self receiver) (← Exec.ofExcept (balance.add value))
  let supply : UInt256 ← read (.currentSupply self)
  assign (.currentSupply self) (← Exec.ofExcept (supply.add value))

def transfer (self src dst : Ident) (value : UInt256) : Exec Stop σ Unit := do
  let held : UInt256 ← read (.balances self src)
  if held < value then Exec.stop (.throw (.error .transferInsufficient))
  else
    let source : UInt256 ← read (.balances self src)
    assign (.balances self src) (← Exec.ofExcept (source.sub value))
    let dest : UInt256 ← read (.balances self dst)
    assign (.balances self dst) (← Exec.ofExcept (dest.add value))

def buy (self buyer : Ident) (value : UInt256) : Exec Stop σ UInt256 := do
  let curve : Curve ← read (.curveData self)
  let baseToken : Ident ← read (.baseIdent self)
  load (.token baseToken)
  let supply : UInt256 ← read (.currentSupply self)
  let upper ← Exec.ofExcept (curve.apply (← Exec.ofExcept (supply.add value)))
  let lower ← Exec.ofExcept (curve.apply supply)
  let buyTokens ← Exec.ofExcept (upper.sub lower)
  let held : UInt256 ← read (.balances baseToken buyer)
  if held < buyTokens then Exec.stop (.throw (.error .buyInsufficient))
  else
    let paid : UInt256 ← read (.balances baseToken buyer)
    assign (.balances baseToken buyer) (← Exec.ofExcept (paid.sub buyTokens))
    let balance : UInt256 ← read (.balances self buyer)
    assign (.balances self buyer) (← Exec.ofExcept (balance.add value))
    let supply : UInt256 ← read (.currentSupply self)
    assign (.currentSupply self) (← Exec.ofExcept (supply.add value))
    return buyTokens

def sell (self seller : Ident) (value : UInt256) : Exec Stop σ UInt256 := do
  let curve : Curve ← read (.curveData self)
  let baseToken : Ident ← read (.baseIdent self)
  load (.token baseToken)
  let held : UInt256 ← read (.balances self seller)
  if held < value then Exec.stop (.throw (.error .sellInsufficient))
  else
    let supply : UInt256 ← read (.currentSupply self)
    let upper ← Exec.ofExcept (curve.apply supply)
    let lower ← Exec.ofExcept (curve.apply (← Exec.ofExcept (supply.sub value)))
    let sellTokens ← Exec.ofExcept (upper.sub lower)
    let balance : UInt256 ← read (.balances self seller)
    assign (.balances self seller) (← Exec.ofExcept (balance.sub value))
    let received : UInt256 ← read (.balances baseToken seller)
    assign (.balances baseToken seller) (← Exec.ofExcept (received.add sellTokens))
    let supply : UInt256 ← read (.currentSupply self)
    assign (.currentSupply self) (← Exec.ofExcept (supply.sub value))
    return sellTokens

end BandChain.Token
