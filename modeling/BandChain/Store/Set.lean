import BandChain.Lib.SearchTree
import BandChain.Util.Buffer
import Mathlib.Data.List.AList

/-!
`store/set.h`: an AVL tree of numbered records, read through to the storage and written back when a
flush destroys it. Heights and counts are `uint64_t` in the source; they never exceed the number of
nodes, so only the counter of nodes is reduced to its width.
-/

namespace BandChain

inductive SetCacheStatus where
  | unchanged
  | changed
  | erased
  deriving DecidableEq

namespace StoredSet

structure Node (α : Type) where
  left : Nat
  right : Nat
  height : Nat
  parent : Nat
  val : α
  status : SetCacheStatus := .unchanged
  deriving DecidableEq

namespace Node

variable {α : Type}

def child (n : Node α) : Side → Nat
  | .left => n.left
  | .right => n.right

def withChild (side : Side) (id : Nat) (n : Node α) : Node α :=
  match side with
  | .left => { n with left := id }
  | .right => { n with right := id }

end Node

end StoredSet

open StoredSet (Node)

instance {α : Type} [Serial α] : Serial (Node α) where
  intact node := intact node.val
  write node := Serial.write (UInt64.ofNat node.left) ++ Serial.write (UInt64.ofNat node.right) ++
    Serial.write (UInt64.ofNat node.height) ++ Serial.write (UInt64.ofNat node.parent) ++ Serial.write node.val
  read := do
    return {
      left := ← varintDecode .uint64
      right := ← varintDecode .uint64
      height := ← varintDecode .uint64
      parent := ← varintDecode .uint64
      val := ← Serial.read }

/-- The map of the storage that is selected while a `Set` lives. -/
abbrev Records := ByteString → Option ByteString

/-- `Set<T>`, with the records of its storage. -/
structure StoredSet (α : Type) where
  storage : Records
  baseKey : ByteString
  nonceNode : Nat := 0
  nonceRoot : Nat := 0
  setSize : Nat := 0
  cache : AList (fun _ : Nat => Node α) := ∅

namespace StoredSet

/-- The key of a node: `baseKey + std::to_string(id)`. -/
def nodeKey (baseKey : ByteString) (id : Nat) : ByteString := baseKey ++ ascii (toString id)

variable {α : Type} [Serial α]

def construct (storage : Records) (baseKey : ByteString) : Except Stop (StoredSet α) :=
  match storage baseKey with
  | none => .ok { storage, baseKey }
  | some result =>
    (do return {
          storage, baseKey
          nonceNode := ← varintDecode .uint64
          nonceRoot := ← varintDecode .uint64
          setSize := ← varintDecode .uint64 } : Decoder (StoredSet α)) result |>.1

/-- What `~Set` writes for the details of the tree. -/
def details (s : StoredSet α) : ByteString :=
  varintEncode s.nonceNode ++ varintEncode s.nonceRoot ++ varintEncode s.setSize

/-- What `~Set` does with one node of the cache. -/
def save (baseKey : ByteString) (records : Records) (id : Nat) (node : Node α) : Records :=
  match node.status with
  | .unchanged => records
  | .changed => Function.update records (nodeKey baseKey id) (some (serialize node))
  | .erased => Function.update records (nodeKey baseKey id) none

/-- The records after `~Set` during a flush. -/
def destroy (s : StoredSet α) : Records :=
  s.cache.entries.foldl (fun records e => save s.baseKey records e.1 e.2)
    (Function.update s.storage s.baseKey (some s.details))

/-! ### Nodes -/

def getNode (nodeID : Nat) : Exec Stop (StoredSet α) (Node α) := fun s =>
  match s.cache.lookup nodeID with
  | some node => (.ok node, s)
  | none =>
    match s.storage (nodeKey s.baseKey nodeID) with
    | none => (.error (.throw (.error .nodeNotFound)), s)
    | some result =>
      match deserialize result with
      | .error e => (.error e, s)
      | .ok node => (.ok node, { s with cache := s.cache.insert nodeID node })

/-- A write through the reference that `getNode` returns. -/
def modifyNode (nodeID : Nat) (f : Node α → Node α) : Exec Stop (StoredSet α) Unit := do
  let node ← getNode nodeID
  Exec.modify fun s => { s with cache := s.cache.insert nodeID (f node) }

/-- `emplace` leaves a node alone that is there. -/
def newNode (val : α) : Exec Stop (StoredSet α) Nat := do
  Exec.modify fun s => { s with nonceNode := (s.nonceNode + 1) % 2 ^ 64, setSize := s.setSize + 1 }
  let s ← Exec.get
  let node : Node α := { left := 0, right := 0, height := 1, parent := 0, val, status := .changed }
  if s.nonceNode ∈ s.cache then return s.nonceNode
  else
    Exec.modify fun s => { s with cache := s.cache.insert s.nonceNode node }
    return s.nonceNode

def getHeight (nodeNonce : Nat) : Exec Stop (StoredSet α) Nat := do
  if nodeNonce = 0 then return 0
  else return (← getNode nodeNonce).height

/-- The loops down one side run until a child is missing; `fuel` bounds their rounds. -/
def outermost (side : Side) : Nat → Nat → Exec Stop (StoredSet α) Nat
  | 0, _ => Exec.stop .crash
  | fuel + 1, nonce => do
    let currentNode ← getNode nonce
    if currentNode.child side = 0 then return nonce
    else outermost side fuel (currentNode.child side)

/-- More rounds than there are nodes. -/
def rounds : Exec Stop (StoredSet α) Nat := do return (← Exec.get).nonceNode + 1

def minValueNode (rootNonce : Nat) : Exec Stop (StoredSet α) Nat := do outermost .left (← rounds) rootNonce

/-- The assignment of a height from those of the children, in rotations and after a change below. -/
def updateHeight (nodeNonce : Nat) : Exec Stop (StoredSet α) Unit := do
  let node ← getNode nodeNonce
  let leftHeight ← getHeight node.left
  let rightHeight ← getHeight node.right
  modifyNode nodeNonce fun node => { node with height := max leftHeight rightHeight + 1, status := .changed }

/-- What a rotation does with the subtree it hands over. -/
def adopt (parent child : Nat) : Exec Stop (StoredSet α) Unit := do
  if child = 0 then return ()
  else modifyNode child fun node => { node with parent, status := .changed }

/-- `rightRotate` raises the left child of `top`, `leftRotate` the right one. -/
def rotate (side : Side) (top : Nat) : Exec Stop (StoredSet α) Nat := do
  let raised := (← getNode top).child side
  let inner := (← getNode raised).child side.other
  modifyNode top (Node.withChild side inner)
  modifyNode raised (Node.withChild side.other top)
  let grandparent := (← getNode top).parent
  modifyNode raised fun node => { node with parent := grandparent }
  modifyNode top fun node => { node with parent := raised }
  adopt top inner
  updateHeight top
  updateHeight raised
  return raised

def rightRotate (y : Nat) : Exec Stop (StoredSet α) Nat := rotate .left y

def leftRotate (x : Nat) : Exec Stop (StoredSet α) Nat := rotate .right x

/-- A rotation of the child on a side, and one of its parent. -/
def rotateTwice (side : Side) (top : Nat) : Exec Stop (StoredSet α) Nat := do
  let child ← rotate side.other ((← getNode top).child side)
  modifyNode top (Node.withChild side child)
  rotate side top

def getBalance (topNodeNonce : Nat) : Exec Stop (StoredSet α) (Bool × Nat) := do
  if topNodeNonce = 0 then return (true, 0)
  else
    let node ← getNode topNodeNonce
    let leftHeight ← getHeight node.left
    let rightHeight ← getHeight node.right
    if rightHeight ≤ leftHeight then return (true, leftHeight - rightHeight)
    else return (false, rightHeight - leftHeight)

def updateParent (parent child : Nat) : Exec Stop (StoredSet α) Unit := do
  if child = 0 then return ()
  else modifyNode child fun node => { node with parent }

/-! ### Insertion -/

section

variable [LinearOrder α]

/-- The cases of `insertNode` for a node that is too high on a side. -/
def raiseInserted (side : Side) (currentNonce : Nat) (val : α) : Exec Stop (StoredSet α) Nat := do
  let child ← getNode ((← getNode currentNonce).child side)
  if SearchTree.beyond side val child.val then rotate side currentNonce
  else if SearchTree.beyond side.other val child.val then rotateTwice side currentNonce
  else return currentNonce

/-- `insertNode` after the insertion below the node. -/
def settleInserted (currentNonce : Nat) (val : α) : Exec Stop (StoredSet α) Nat := do
  updateHeight currentNonce
  let (heavyLeft, heightDiff) ← getBalance currentNonce
  if heavyLeft ∧ 1 < heightDiff then raiseInserted .left currentNonce val
  else if ¬ heavyLeft ∧ 1 < heightDiff then raiseInserted .right currentNonce val
  else return currentNonce

/-- The recursion is on the depth of the tree, which `fuel` bounds. -/
def insertNode : Nat → Nat → α → Exec Stop (StoredSet α) Nat
  | 0, _, _ => Exec.stop .crash
  | fuel + 1, currentNonce, val => do
    if currentNonce = 0 then newNode val
    else
      let currentNode ← getNode currentNonce
      if val < currentNode.val then
        let left ← insertNode fuel currentNode.left val
        modifyNode currentNonce fun node => { node with left }
        updateParent currentNonce left
        settleInserted currentNonce val
      else if currentNode.val < val then
        let right ← insertNode fuel currentNode.right val
        modifyNode currentNonce fun node => { node with right }
        updateParent currentNonce right
        settleInserted currentNonce val
      else return currentNonce

def insert (val : α) : Exec Stop (StoredSet α) Bool := do
  let before ← Exec.get
  let root ← insertNode (← rounds) before.nonceRoot val
  Exec.modify fun s => { s with nonceRoot := root }
  return before.setSize ≠ (← Exec.get).setSize

/-! ### Deletion -/

/-- `deleteNode` after the deletion at or below the node. -/
def settleErased (currentNonce : Nat) : Exec Stop (StoredSet α) Nat := do
  updateHeight currentNonce
  let (heavyLeft, heightDiff) ← getBalance currentNonce
  let node ← getNode currentNonce
  if heavyLeft ∧ 1 < heightDiff then
    if (← getBalance node.left).1 then rightRotate currentNonce else rotateTwice .left currentNonce
  else if ¬ heavyLeft ∧ 1 < heightDiff then
    if ¬ (← getBalance node.right).1 then leftRotate currentNonce else rotateTwice .right currentNonce
  else return currentNonce

/-- The removal of a node with at most one child: a child is copied over its parent, and its own
record erased instead. -/
def spliceNode (currentNonce : Nat) : Exec Stop (StoredSet α) Unit := do
  let currentNode ← getNode currentNonce
  let child := if currentNode.left ≠ 0 then currentNode.left else currentNode.right
  if child = 0 then
    Exec.modify fun s => { s with setSize := s.setSize - 1 }
    modifyNode currentNonce fun node => { node with status := .erased }
  else
    let childNode ← getNode child
    modifyNode currentNonce fun node => { childNode with parent := node.parent, status := .changed }
    Exec.modify fun s => { s with setSize := s.setSize - 1 }
    modifyNode child fun node => { node with status := .erased }

/-- The end of `deleteNode`. -/
def leaveErased (currentNonce : Nat) : Exec Stop (StoredSet α) Nat := do
  if (← getNode currentNonce).status = .erased then return 0 else settleErased currentNonce

def deleteNode : Nat → Nat → α → Exec Stop (StoredSet α) Nat
  | 0, _, _ => Exec.stop .crash
  | fuel + 1, currentNonce, val => do
    if currentNonce = 0 then return 0
    else
      let currentNode ← getNode currentNonce
      if val < currentNode.val then
        let left ← deleteNode fuel currentNode.left val
        modifyNode currentNonce fun node => { node with left }
        updateParent currentNonce left
      else if currentNode.val < val then
        let right ← deleteNode fuel currentNode.right val
        modifyNode currentNonce fun node => { node with right }
        updateParent currentNonce right
      else if currentNode.left = 0 ∨ currentNode.right = 0 then spliceNode currentNonce
      else
        let minNode ← getNode (← minValueNode currentNode.right)
        modifyNode currentNonce fun node => { node with val := minNode.val }
        let right ← deleteNode fuel currentNode.right minNode.val
        modifyNode currentNonce fun node => { node with right }
      leaveErased currentNonce

def erase (val : α) : Exec Stop (StoredSet α) Bool := do
  let before ← Exec.get
  let root ← deleteNode (← rounds) before.nonceRoot val
  Exec.modify fun s => { s with nonceRoot := root }
  return before.setSize ≠ (← Exec.get).setSize

/-! ### Queries -/

/-- The loop of `contains` and of `find`: the nonce of the node that holds `val`, or 0. -/
def search (val : α) : Nat → Nat → Exec Stop (StoredSet α) Nat
  | 0, _ => Exec.stop .crash
  | fuel + 1, currentNonceNode => do
    if currentNonceNode = 0 then return 0
    else
      let currentNode ← getNode currentNonceNode
      if val = currentNode.val then return currentNonceNode
      else if val < currentNode.val then search val fuel currentNode.left
      else search val fuel currentNode.right

def contains (val : α) : Exec Stop (StoredSet α) Bool := do
  return (← search val (← rounds) (← Exec.get).nonceRoot) ≠ 0

/-- `find`; an iterator is the nonce of its node. -/
def find (val : α) : Exec Stop (StoredSet α) Nat := do search val (← rounds) (← Exec.get).nonceRoot

end

def size : Exec Stop (StoredSet α) Nat := do return (← Exec.get).setSize

def maxValue [Inhabited α] : Exec Stop (StoredSet α) α := do
  let s ← Exec.get
  if s.setSize = 0 then return default
  else return (← getNode (← outermost .right (← rounds) s.nonceRoot)).val

/-! ### Iterators -/

/-- `Iterator::operator*`. -/
def value [Inhabited α] (currentNonce : Nat) : Exec Stop (StoredSet α) α := do
  if currentNonce = 0 then return default
  else return (← getNode currentNonce).val

/-- `begin` and `last`. -/
def begin : Exec Stop (StoredSet α) Nat := do outermost .left (← rounds) (← Exec.get).nonceRoot

def last : Exec Stop (StoredSet α) Nat := do outermost .right (← rounds) (← Exec.get).nonceRoot

/-- The loop upwards in `operator++` and `operator--`: to the first parent of which the path is not
the child on `side`. -/
def climb (side : Side) : Nat → Nat → Exec Stop (StoredSet α) Nat
  | 0, _ => Exec.stop .crash
  | fuel + 1, now => do
    let parent := (← getNode now).parent
    if parent = 0 then return 0
    else if (← getNode parent).child side = now then climb side fuel parent
    else return parent

/-- `operator++` goes to the right, `operator--` to the left. -/
def advance (side : Side) (currentNonce : Nat) : Exec Stop (StoredSet α) Nat := do
  if currentNonce = 0 then return 0
  else
    let node ← getNode currentNonce
    if node.child side = 0 then climb side (← rounds) currentNonce
    else outermost side.other (← rounds) (node.child side)

def next (currentNonce : Nat) : Exec Stop (StoredSet α) Nat := advance .right currentNonce

def prev (currentNonce : Nat) : Exec Stop (StoredSet α) Nat := advance .left currentNonce

end StoredSet

end BandChain
