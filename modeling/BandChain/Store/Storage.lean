import BandChain.Store.Key
import Mathlib.Data.List.AList

/-!
`store/storage.h`, `store/data.h`, `store/map.h` and `store/storage_map.cc`: contracts are kept in a
cache of objects whose data cells are read through to the selected map and written back when a
flush destroys them.
-/

namespace BandChain

/-- The two maps of a store, by the mode that selects them. -/
inductive PrimaryMode where
  | check
  | apply
  deriving DecidableEq

/-- What contracts and listeners ask of a storage. `place` is `Storage::create` up to the call of
`init`; `read` and `assign` are `Data::operator+` and `Data::operator=`. -/
class Storage (σ : Type) where
  load : ContractKey → Exec Stop σ Unit
  place : ContractKey → Exec Stop σ Unit
  read : (c : Cell) → Exec Stop σ c.Val
  assign : (c : Cell) → c.Val → Exec Stop σ Unit
  switchToCheck : Exec Stop σ Unit
  switchToApply : Exec Stop σ Unit
  reset : Exec Stop σ Unit
  flush : Exec Stop σ Unit

/-- `Storage::create`. -/
def Storage.create {σ : Type} [Storage σ] (k : ContractKey) (init : Exec Stop σ Unit) : Exec Stop σ Unit := do
  place k
  init

/-! ### Data cells -/

inductive DataCacheStatus where
  | unchanged
  | changed
  | erased
  deriving DecidableEq

structure Data (α : Type) where
  status : DataCacheStatus := .unchanged
  cache : Option α := none
  deriving DecidableEq

/-- A copy of a value; of one that is not intact, the end of the process. -/
def copy {α : Type} [Serial α] (val : α) : Except Stop α := if intact val then .ok val else .error .crash

/-- The value the store holds for a cell, `T{}` where it holds none. -/
def decoded {α : Type} [Serial α] [Inhabited α] : Option ByteString → Except Stop α
  | some raw => deserialize raw
  | none => .ok default

namespace Data

variable {α : Type} [Serial α]

/-- `Data::operator+`, with the answer of the store; the cell keeps what it decoded. -/
def value [Inhabited α] (stored : Except Stop (Option ByteString)) (d : Data α) : Except Stop (α × Data α) :=
  if d.status = .erased then .error (.throw (.error .deletedObject))
  else
    match d.cache with
    | some val => do return (← copy val, d)
    | none => do
      let val ← decoded (← stored)
      return (← copy val, { d with cache := some val })

/-- `Data::operator=`. -/
def assign (val : α) : Except Stop (Data α) := do return { status := .changed, cache := some (← copy val) }

/-- `Data::operator+` of a type of which `T{}` makes a value, or of an enumeration, of which it makes none. -/
def valueOr (fallback : Option α) (stored : Except Stop (Option ByteString)) (d : Data α) : Except Stop (α × Data α) :=
  if d.status = .erased then .error (.throw (.error .deletedObject))
  else
    match d.cache with
    | some val => do return (← copy val, d)
    | none => do
      match ← stored, fallback with
      | some raw, _ => do
        let val ← deserialize raw
        return (← copy val, { d with cache := some val })
      | none, some val => return (← copy val, { d with cache := some val })
      | none, none => .error (.throw (.error .noDefaultCtor))

/-- `Data::erase`. -/
def erase : Data α := { status := .erased }

/-- `Data::exist`, with the answer of the store. -/
def exist (stored : Except Stop (Option ByteString)) (d : Data α) : Except Stop Bool :=
  if d.status = .erased then .ok false
  else
    match d.cache with
    | some _ => .ok true
    | none => do return (← stored).isSome

/-- The value an assignment left in the cell. -/
def written (d : Data α) : Option α := if d.status = .changed then d.cache else none

end Data

/-- The members of `contract/account.h`. -/
structure Account where
  verifyKey : Data VerifyKey := {}
  nonce : Data UInt256 := {}

/-- The members of `contract/token.h`. The cells of a `DataMap` are made on first use. -/
structure Token where
  curveData : Data Curve := {}
  baseIdent : Data Ident := {}
  currentSupply : Data UInt256 := {}
  balances : AList (fun _ : Ident => Data UInt256) := ∅

abbrev ContractKey.Object : ContractKey → Type
  | account _ => Account
  | token _ => Token

/-- A newly constructed contract. -/
def ContractKey.fresh : (k : ContractKey) → k.Object
  | account _ => ({} : Account)
  | token _ => ({} : Token)

namespace Cell

/-- The member of a contract a cell stands for. -/
def get : (c : Cell) → c.contract.Object → Data c.Val
  | verifyKey _, o => o.verifyKey
  | nonce _, o => o.nonce
  | curveData _, o => o.curveData
  | baseIdent _, o => o.baseIdent
  | currentSupply _, o => o.currentSupply
  | balances _ user, o => (o.balances.lookup user).getD {}

def set : (c : Cell) → Data c.Val → c.contract.Object → c.contract.Object
  | verifyKey _, d, o => { o with verifyKey := d }
  | nonce _, d, o => { o with nonce := d }
  | curveData _, d, o => { o with curveData := d }
  | baseIdent _, d, o => { o with baseIdent := d }
  | currentSupply _, d, o => { o with currentSupply := d }
  | balances _ user, d, o => { o with balances := o.balances.insert user d }

end Cell

/-- A cell and the `Data` object that holds it. -/
abbrev Member := (c : Cell) × Data c.Val

/-- The cells of a contract, in the order they are destroyed. -/
def ContractKey.members : (k : ContractKey) → k.Object → List Member
  | account a, o => [⟨.nonce a, o.nonce⟩, ⟨.verifyKey a, o.verifyKey⟩]
  | token t, o =>
    o.balances.entries.map (fun e => ⟨.balances t e.1, e.2⟩) ++
      [⟨.currentSupply t, o.currentSupply⟩, ⟨.baseIdent t, o.baseIdent⟩, ⟨.curveData t, o.curveData⟩]

/-! ### StorageMap -/

/-- `StorageMap`. `currentCache` is the mode of the map the pointer leads to. The contracts in `cache`
are keyed by their prefixed key, which is another form of a `ContractKey`; in particular a cast to
the contract type never fails. -/
structure StorageMap {K : Type} (L : Layout K) where
  checkCache : K → Option ByteString := fun _ => none
  applyCache : K → Option ByteString := fun _ => none
  currentCache : Option PrimaryMode := none
  isFlushing : Bool := false
  cache : AList ContractKey.Object := ∅

/-- An exception that leaves a destructor ends the process. -/
def inDestructor {σ α : Type} (x : Exec Stop σ α) : Exec Stop σ α := fun s =>
  match x s with
  | (.ok a, t) => (.ok a, t)
  | (.error _, t) => (.error .crash, t)

namespace StorageMap

variable {K : Type} [DecidableEq K] {L : Layout K}

def map (s : StorageMap L) : PrimaryMode → K → Option ByteString
  | .check => s.checkCache
  | .apply => s.applyCache

/-- The map of a mode, with one key changed. -/
def update (s : StorageMap L) (mode : PrimaryMode) (key : K) (val : Option ByteString) : StorageMap L :=
  match mode with
  | .check => { s with checkCache := Function.update s.checkCache key val }
  | .apply => { s with applyCache := Function.update s.applyCache key val }

def get (x : Slot) : Exec Stop (StorageMap L) (Option ByteString) := fun s =>
  match s.currentCache with
  | none => (.error (.throw (.failure .getUnselected)), s)
  | some mode => (.ok (s.map mode (L.key x)), s)

def put (x : Slot) (val : ByteString) : Exec Stop (StorageMap L) Unit := fun s =>
  match s.currentCache with
  | none => (.error (.throw (.failure .putUnselected)), s)
  | some mode => (.ok (), s.update mode (L.key x) (some val))

def del (x : Slot) : Exec Stop (StorageMap L) Unit := fun s =>
  match s.currentCache with
  | none => (.error (.throw (.failure .delUnselected)), s)
  | some mode => (.ok (), s.update mode (L.key x) none)

def commit : Exec Stop (StorageMap L) Unit :=
  Exec.modify fun s => { s with checkCache := s.applyCache, currentCache := none }

def switchToCheck : Exec Stop (StorageMap L) Unit := Exec.modify fun s => { s with currentCache := some .check }

def switchToApply : Exec Stop (StorageMap L) Unit := Exec.modify fun s => { s with currentCache := some .apply }

/-- `getContract`, and whether it found one. -/
def getContract (k : ContractKey) : Exec Stop (StorageMap L) Bool := do
  let s ← Exec.get
  if k ∈ s.cache then
    return true
  else
    match ← get (.contract k) with
    | none => return false
    | some storeValue =>
      if storeValue = k.prefixedKey then
        Exec.modify fun s => { s with cache := s.cache.insert k k.fresh }
        return true
      else Exec.stop (.throw (.error (.contractInconsistent k.prefixedKey storeValue)))

def load (k : ContractKey) : Exec Stop (StorageMap L) Unit := do
  if ← getContract k then return ()
  else Exec.stop (.throw (.error (.contractMissing k.prefixedKey)))

def place (k : ContractKey) : Exec Stop (StorageMap L) Unit := do
  if ← getContract k then Exec.stop (.throw (.error (.contractExists k.prefixedKey)))
  else
    Exec.modify fun s => { s with cache := s.cache.insert k k.fresh }
    put (.contract k) k.prefixedKey

/-- `Data::operator+` of a cell of a loaded contract. Without the contract in the cache the reference
would dangle. -/
def read (c : Cell) : Exec Stop (StorageMap L) c.Val := fun s =>
  match s.cache.lookup c.contract with
  | none => (.error .crash, s)
  | some object =>
    match (c.get object).value (get (.data c) s).1 with
    | .error e => (.error e, s)
    | .ok (val, d) => (.ok val, { s with cache := s.cache.insert c.contract (c.set d object) })

def assign (c : Cell) (val : c.Val) : Exec Stop (StorageMap L) Unit := fun s =>
  match s.cache.lookup c.contract with
  | none => (.error .crash, s)
  | some object =>
    match Data.assign val with
    | .error e => (.error e, s)
    | .ok d => (.ok (), { s with cache := s.cache.insert c.contract (c.set d object) })

/-- `~Data`. -/
def destroy (m : Member) : Exec Stop (StorageMap L) Unit := do
  let s ← Exec.get
  if s.isFlushing then
    match m.2.status, m.2.cache with
    | .unchanged, _ => return ()
    | .changed, some val => if intact val then put (.data m.1) (serialize val) else Exec.stop .crash
    | .changed, none => Exec.stop .crash
    | .erased, _ => del (.data m.1)
  else return ()

def destroyAll : List Member → Exec Stop (StorageMap L) Unit
  | [] => return ()
  | m :: rest => do
    inDestructor (destroy m)
    destroyAll rest

/-- Every cell of every cached contract. -/
def members (s : StorageMap L) : List Member := s.cache.entries.flatMap fun e => e.1.members e.2

/-- `cache.clear()`. The order in which an unordered map destroys its contracts is not specified; the
cells written have different keys, so it makes no difference. -/
def clear : Exec Stop (StorageMap L) Unit := do
  let s ← Exec.get
  destroyAll s.members
  Exec.modify fun s => { s with cache := ∅ }

def reset : Exec Stop (StorageMap L) Unit := clear

/-- `Storage::flush`, with the scope exit that lowers the flag. -/
def flush : Exec Stop (StorageMap L) Unit := do
  Exec.modify fun s => { s with isFlushing := true }
  clear
  commit
  Exec.modify fun s => { s with isFlushing := false }

instance : Storage (StorageMap L) where
  load := load
  place := place
  read := read
  assign := assign
  switchToCheck := switchToCheck
  switchToApply := switchToApply
  reset := reset
  flush := flush

end StorageMap

end BandChain
