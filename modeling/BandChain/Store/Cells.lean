import BandChain.Store.Refine

/-!
Sessions on the data cells of loaded contracts: reads, assignments and erasures, and the end of the
session by a flush or a reset that destroys the objects in any order.
-/

namespace BandChain

inductive Access where
  | read (c : Cell)
  | assign (c : Cell) (val : c.Val)
  | erase (c : Cell)

def Access.cell : Access → Cell
  | read c | assign c _ | erase c => c

abbrev Reading := Option ((c : Cell) × c.Val)

namespace StorageMap

variable {K : Type} [DecidableEq K] {L : Layout K}

/-- `Data::erase` of a cell of a loaded contract. -/
def erase (c : Cell) : Exec Stop (StorageMap L) Unit := fun s =>
  match s.cache.lookup c.contract with
  | none => (.error .crash, s)
  | some object => (.ok (), { s with cache := s.cache.insert c.contract (c.set Data.erase object) })

/-- `cache.clear()`, with the cells in the order they are destroyed. -/
def clearIn (order : List Member) : Exec Stop (StorageMap L) Unit := do
  destroyAll order
  Exec.modify fun s => { s with cache := ∅ }

def flushIn (order : List Member) : Exec Stop (StorageMap L) Unit := do
  Exec.modify fun s => { s with isFlushing := true }
  clearIn order
  commit
  Exec.modify fun s => { s with isFlushing := false }

end StorageMap

def Access.use {K : Type} {L : Layout K} : Access → Exec Stop (StorageMap L) Reading
  | read c => do return some ⟨c, ← StorageMap.read c⟩
  | assign c val => do
    StorageMap.assign c val
    return none
  | erase c => do
    StorageMap.erase c
    return none

def Access.exec {K : Type} {L : Layout K} (access : Access) : Exec Stop (StorageMap L) Reading := do
  StorageMap.load access.cell.contract
  access.use

/-- The answers of a session, up to the access that ends the process if one does. -/
def Access.session {K : Type} {L : Layout K} : List Access → StorageMap L → List (Except Stop Reading) × StorageMap L
  | [], s => ([], s)
  | access :: accesses, s =>
    match access.exec s with
    | (.error .crash, s') => ([.error .crash], s')
    | (answer, s') => (answer :: (session accesses s').1, (session accesses s').2)

/-! ### A map under a session -/

/-- A map, and what the session did to cells last: `some val` for an assignment, `none` for an erasure. -/
structure View {K : Type} (L : Layout K) where
  records : K → Option ByteString
  touched : (c : Cell) → Option (Option c.Val) := fun _ => none

namespace View

variable {K : Type} {L : Layout K}

def touch (v : View L) (c : Cell) (val : Option c.Val) : View L :=
  { v with touched := Function.update v.touched c (some val) }

def read (v : View L) (c : Cell) : Except Stop c.Val :=
  match v.touched c with
  | some (some val) => .ok val
  | some none => .error (.throw (.error .deletedObject))
  | none => decoded (v.records (L.key (.data c)))

/-- An access to a cell whose contract exists. -/
def use (v : View L) : Access → Except Stop Reading × View L
  | .read c => ((v.read c).map fun val => some ⟨c, val⟩, v)
  | .assign c val => (.ok none, v.touch c (some val))
  | .erase c => (.ok none, v.touch c none)

def step (v : View L) (access : Access) : Except Stop Reading × View L :=
  match Overlay.existence access.cell.contract (v.records (L.key (.contract access.cell.contract))) with
  | .ok true => v.use access
  | .ok false => (.error (.throw (.error (.contractMissing access.cell.contract.prefixedKey))), v)
  | .error e => (.error e, v)

def run : List Access → View L → List (Except Stop Reading) × View L
  | [], v => ([], v)
  | access :: accesses, v => ((v.step access).1 :: (run accesses (v.step access).2).1, (run accesses (v.step access).2).2)

/-- The map with the assigned values put and the erased keys removed. -/
structure Settles (v : View L) (m : K → Option ByteString) : Prop where
  assigned : ∀ c val, v.touched c = some (some val) → m (L.key (.data c)) = some (serialize val)
  erased : ∀ c, v.touched c = some none → m (L.key (.data c)) = none
  others : ∀ k, (∀ c, L.key (.data c) = k → v.touched c = none) → m k = v.records k

/-- The access copies no curve without an equation: none is assigned, and no curve is read that is neither assigned, nor
erased, nor stored. -/
def Copies (v : View L) : Access → Prop
  | .read c => v.touched c = none → v.records (L.key (.data c)) = none → intact (default : c.Val) = true
  | .assign _ val => intact val = true
  | .erase _ => True

def Fit (v : View L) (access : Access) : Prop :=
  v.records (L.key (.contract access.cell.contract)) = some access.cell.contract.prefixedKey → v.Copies access

def Along : List Access → View L → Prop
  | [], _ => True
  | access :: accesses, v => v.Fit access ∧ Along accesses (v.step access).2

end View

end BandChain
