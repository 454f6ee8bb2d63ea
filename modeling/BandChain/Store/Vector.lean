import BandChain.Lib.LowerBound
import BandChain.Lib.WriteBack
import BandChain.Store.Set

/-! `store/vector.h`: a size and numbered elements, read through to the storage and written back when a flush destroys them. -/

namespace BandChain

/-- `Vector<T>`, with the records of its storage. -/
structure StoredVector (α : Type) where
  storage : Records
  baseKey : ByteString
  mSize : UInt256 := 0
  cache : AList (fun _ : UInt256 => α) := ∅
  isDestroyed : Bool := false

namespace StoredVector

/-- The key of an element: `baseKey + idx.str()`. -/
def elementKey (baseKey : ByteString) (idx : UInt256) : ByteString := StoredSet.nodeKey baseKey idx.val

variable {α : Type}

def construct (storage : Records) (baseKey : ByteString) : Except Stop (StoredVector α) :=
  match storage baseKey with
  | none => .ok { storage, baseKey }
  | some result => do return { storage, baseKey, mSize := ← deserialize result }

/-- The puts and removals of `~Vector` in a flush. Their keys differ, so the order of the cache makes no difference. -/
def changes [Serial α] (v : StoredVector α) : List (ByteString × Option ByteString) :=
  if v.isDestroyed then
    (v.baseKey, none) :: (List.range v.mSize.val).map fun i => (StoredSet.nodeKey v.baseKey i, none)
  else
    (v.baseKey, some (serialize v.mSize)) ::
      v.cache.entries.map fun e => (elementKey v.baseKey e.1, some (serialize e.2))

def destruct [Serial α] (v : StoredVector α) : Records := WriteBack.changeAll v.changes v.storage

/-- `cache.emplace`: an index that is in the cache keeps its value. -/
def emplace (idx : UInt256) (val : α) (v : StoredVector α) : StoredVector α :=
  match v.cache.lookup idx with
  | some _ => v
  | none => { v with cache := v.cache.insert idx val }

/-- `operator[]`. -/
def subscript [Serial α] (idx : UInt256) : Exec Stop (StoredVector α) α := do
  let v ← Exec.get
  if v.isDestroyed then Exec.stop (.throw (.error .vectorDestroyed))
  else if v.mSize ≤ idx then Exec.stop (.throw (.error .indexOutOfRange))
  else
    match v.cache.lookup idx with
    | some val => return val
    | none =>
      match v.storage (elementKey v.baseKey idx) with
      | none => Exec.stop (.throw (.failure .valueMissing))
      | some result => do
        let val ← Exec.ofExcept (deserialize result)
        Exec.modify (emplace idx val)
        return val

def pushBack (val : α) : Exec Stop (StoredVector α) Unit := do
  let v ← Exec.get
  if v.isDestroyed then Exec.stop (.throw (.error .vectorDestroyed))
  else
    Exec.modify (emplace v.mSize val)
    let mSize ← Exec.ofExcept (v.mSize.add 1)
    Exec.modify fun v => { v with mSize }

def destroy : Exec Stop (StoredVector α) Unit := Exec.modify fun v => { v with isDestroyed := true }

def size : Exec Stop (StoredVector α) UInt256 := do return (← Exec.get).mSize

def back [Serial α] : Exec Stop (StoredVector α) α := do
  let v ← Exec.get
  if v.mSize = 0 then Exec.stop (.throw (.error .vectorEmpty))
  else subscript (← Exec.ofExcept (v.mSize.sub 1))

/-- The loop of `lowerBoundIndex`, over what `operator[]` does; `fuel` bounds its rounds. -/
def lowerBoundLoop {σ : Type} [LE α] [DecidableLE α] (read : UInt256 → Exec Stop σ α) (value : α) :
    Nat → UInt256 → UInt256 → Exec Stop σ UInt256
  | 0, _, _ => Exec.stop .crash
  | fuel + 1, st, ed => do
    if st < ed then
      let mid ← Exec.ofExcept (do (← st.add ed).div 2)
      if value ≤ (← read mid) then lowerBoundLoop read value fuel st mid
      else lowerBoundLoop read value fuel (← Exec.ofExcept (mid.add 1)) ed
    else return st

def lowerBoundIndex [Serial α] [LE α] [DecidableLE α] (value : α) : Exec Stop (StoredVector α) UInt256 := do
  let v ← Exec.get
  lowerBoundLoop subscript value (v.mSize.val + 1) 0 v.mSize

end StoredVector

end BandChain
