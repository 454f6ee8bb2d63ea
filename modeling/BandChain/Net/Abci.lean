import BandChain.Listener.Abi
import BandChain.Net.TmApp

/-!
`net/tmapp.h` and `net/tmapp.cc`: the requests of Tendermint over the applications of `main/bandlog.cc` and
`main/bandexplorer.cc`. Of the messages of `abci.proto` there are the fields that are read or set.
-/

namespace BandChain

namespace Abci

structure Validator where
  pubKey : ByteString
  power : Int64
  deriving DecidableEq

/-- `Request`, by its `value_case`. -/
inductive Request where
  | echo (message : ByteString)
  | flush
  | info (version : ByteString)
  | setOption
  | initChain (validators : List Validator) (appStateBytes : ByteString)
  | query (path data : ByteString)
  | beginBlock (seconds : Int64) (proposerAddress : ByteString)
  | checkTx (tx : ByteString)
  | deliverTx (tx : ByteString)
  | endBlock
  | commit
  | notSet
  deriving DecidableEq

inductive Response where
  | echo (message : ByteString)
  | flush
  | info (data version : ByteString) (lastBlockHeight : Int64) (lastBlockAppHash : ByteString)
  | initChain
  | query (code : Nat) (info value : ByteString) (height : Int64)
  | beginBlock
  | checkTx (res : ResponseTx)
  | deliverTx (res : ResponseTx)
  | endBlock (validatorUpdates : List Validator)
  | commit (data : ByteString)
  deriving DecidableEq

/-- What leaves `process` and ends the process. -/
inductive Abort where
  /-- "Invalid Tendermint version {}. Expect {}" -/
  | version (given : ByteString)
  /-- "set_option is not supported" -/
  | setOption
  /-- "Unexpected request type" -/
  | unexpectedRequest
  /-- "Bytes<{}>::raw: Invalid raw string length {}" -/
  | rawLength (size length : Nat)
  | stop (e : Stop)
  deriving DecidableEq

end Abci

/-- The virtual functions of a `TendermintApplication`. Both applications work on a manager. An exception of `query`
is its `what()`. -/
structure Application (σ : Type) where
  name : ByteString
  version : ByteString
  currentAppHash : ByteString
  init : List (VerifyKey × UInt64) → ByteString → Exec Stop (ListenerManager σ) Unit
  query : ByteString → ByteString → Exec ByteString (ListenerManager σ) ByteString
  check : ByteString → Exec Stop (ListenerManager σ) Unit
  apply : ByteString → Exec Stop (ListenerManager σ) ByteString
  beginBlock : UInt64 → Address → Exec Stop (ListenerManager σ) Unit
  endBlock : Exec Stop (ListenerManager σ) (List (VerifyKey × UInt64))
  commitBlock : Exec Stop (ListenerManager σ) Unit

structure TendermintApplication (σ : Type) where
  manager : ListenerManager σ
  lastBlockHeight : UInt64 := 0

namespace TendermintApplication

open Abci (Abort Validator)

variable {σ : Type}

def tmVersion : ByteString := ascii "0.25.0-d297f022"

/-- A call to the application. What it throws is not caught. -/
def onManager {α : Type} (call : Exec Stop (ListenerManager σ) α) : Exec Abort (TendermintApplication σ) α := fun s =>
  match call s.manager with
  | (.ok a, manager) => (.ok a, { s with manager })
  | (.error e, manager) => (.error (.stop e), { s with manager })

/-- `Bytes::raw`. -/
def raw (size : Nat) (rawString : ByteString) : Except Abort (Bytes size) :=
  if same : rawString.length = size then .ok ⟨rawString, same⟩ else .error (.rawLength size rawString.length)

def doInfo (app : Application σ) (version : ByteString) : Exec Abort (TendermintApplication σ) Abci.Response := do
  let s ← Exec.get
  if version ≠ tmVersion then Exec.stop (.version version)
  else if s.lastBlockHeight ≠ 0 then return .info app.name app.version s.lastBlockHeight.toInt64 app.currentAppHash
  else return .info app.name app.version 0 []

/-- `VerifyKey::raw` of the public keys, up to the first that has another length. -/
def rawKeys : List Validator → Except Abort (List (VerifyKey × UInt64))
  | [] => .ok []
  | validator :: validators => do
    let key ← raw 32 validator.pubKey
    return (key, validator.power.toUInt64) :: (← rawKeys validators)

def doInitChain (app : Application σ) (validators : List Validator) (appStateBytes : ByteString) :
    Exec Abort (TendermintApplication σ) Abci.Response := do
  let validators ← Exec.ofExcept (rawKeys validators)
  onManager (app.init validators appStateBytes)
  return .initChain

def doQuery (app : Application σ) (path data : ByteString) : Exec Abort (TendermintApplication σ) Abci.Response := fun s =>
  match app.query path data s.manager with
  | (.ok value, manager) => (.ok (.query 0 [] value s.lastBlockHeight.toInt64), { s with manager })
  | (.error what, manager) => (.ok (.query 1 (cString what) [] s.lastBlockHeight.toInt64), { s with manager })

def doBeginBlock (app : Application σ) (seconds : Int64) (proposerAddress : ByteString) :
    Exec Abort (TendermintApplication σ) Abci.Response := do
  let proposer ← Exec.ofExcept (raw 20 proposerAddress)
  onManager (app.beginBlock seconds.toUInt64 proposer)
  Exec.modify fun s => { s with lastBlockHeight := s.lastBlockHeight + 1 }
  return .beginBlock

def doCheckTx [Memory] (app : Application σ) (tx : ByteString) : Exec Abort (TendermintApplication σ) Abci.Response := do
  return .checkTx (← onManager (TmApp.answering do
    app.check tx
    return {}))

def doDeliverTx [Memory] (app : Application σ) (tx : ByteString) : Exec Abort (TendermintApplication σ) Abci.Response := do
  return .deliverTx (← onManager (TmApp.answering do return { data := ← app.apply tx }))

def doEndBlock (app : Application σ) : Exec Abort (TendermintApplication σ) Abci.Response := do
  let updateValidators ← onManager app.endBlock
  return .endBlock (updateValidators.map fun (vk, power) => { pubKey := serialize vk, power := power.toInt64 })

def doCommit (app : Application σ) : Exec Abort (TendermintApplication σ) Abci.Response := do
  onManager app.commitBlock
  return .commit app.currentAppHash

/-- The switch of `process`. -/
def process [Memory] (app : Application σ) : Abci.Request → Exec Abort (TendermintApplication σ) Abci.Response
  | .echo message => return .echo message
  | .flush => return .flush
  | .info version => doInfo app version
  | .setOption => Exec.stop .setOption
  | .initChain validators appStateBytes => doInitChain app validators appStateBytes
  | .query path data => doQuery app path data
  | .beginBlock seconds proposerAddress => doBeginBlock app seconds proposerAddress
  | .checkTx tx => doCheckTx app tx
  | .deliverTx tx => doDeliverTx app tx
  | .endBlock => doEndBlock app
  | .commit => doCommit app
  | .notSet => Exec.stop .unexpectedRequest

/-- Requests one after the other, up to one that ends the process. -/
def processAll [Memory] (app : Application σ) : List Abci.Request → Exec Abort (TendermintApplication σ) (List Abci.Response)
  | [] => return []
  | req :: reqs => do
    let res ← process app req
    return res :: (← processAll app reqs)

/-- A request as it comes out of its frame. Protobuf is not part of the source: `parse` gives what `ParseFromArray` leaves in the
request, whether it could read all of it or not. -/
def handle [Memory] (parse : ByteString → Abci.Request) (serialize : Abci.Response → ByteString) (app : Application σ) :
    ByteString → Exec Stop (TendermintApplication σ) ByteString := fun payload s =>
  match process app (parse payload) s with
  | (.ok res, s) => (.ok (serialize res), s)
  | (.error _, s) => (.error .crash, s)

end TendermintApplication

/-! ### The applications -/

def ListenerManager.endBlock {σ : Type} : Exec Stop (ListenerManager σ) Unit := do
  let m ← Exec.get
  if m.primary.isNone then Exec.stop (.throw (.failure .noPrimary))

/-- `main/bandlog.cc`. -/
def bandLogging (σ : Type) [Storage σ] [Sha256] : Application σ where
  name := ascii "band-logging"
  version := ascii "n/a"
  currentAppHash := []
  init _ initState := ListenerManager.initChain initState
  query _ _ := return ListenerManager.abi
  check := ListenerManager.checkTransaction
  apply msgRaw := ListenerManager.applyTransaction msgRaw []
  beginBlock := ListenerManager.beginBlock
  endBlock := do
    ListenerManager.endBlock
    return []
  commitBlock := ListenerManager.commitBlock

/-- `main/bandexplorer.cc`. The result of `applyTransaction` is dropped. -/
def bandExplorer (σ : Type) [Storage σ] [Sha256] : Application σ where
  name := ascii "band-explorer"
  version := ascii "n/a"
  currentAppHash := []
  init _ _ := return ()
  query _ _ := return []
  check _ := return ()
  apply msgRaw := do
    let _ ← ListenerManager.applyTransaction msgRaw []
    return []
  beginBlock := ListenerManager.beginBlock
  endBlock := return []
  commitBlock := ListenerManager.commitBlock

end BandChain
