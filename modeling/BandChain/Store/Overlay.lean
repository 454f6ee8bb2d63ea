import BandChain.Lib.WriteBack
import BandChain.Store.Storage

/-!
What a storage is for: two maps, and the values assigned since the last flush or reset laid over the
selected one. There are no objects and no cache here; `Store/Refine.lean` shows that `StorageMap`
behaves as this store.
-/

namespace BandChain

structure Overlay {K : Type} (L : Layout K) where
  checkCache : K → Option ByteString := fun _ => none
  applyCache : K → Option ByteString := fun _ => none
  currentCache : Option PrimaryMode := none
  pending : (c : Cell) → Option c.Val := fun _ => none

namespace Overlay

variable {K : Type} {L : Layout K}

def map (o : Overlay L) : PrimaryMode → K → Option ByteString
  | .check => o.checkCache
  | .apply => o.applyCache

@[simp] theorem map_check (o : Overlay L) : o.map .check = o.checkCache := rfl

@[simp] theorem map_apply (o : Overlay L) : o.map .apply = o.applyCache := rfl

/-- What the selected map holds for a slot. -/
def stored (o : Overlay L) (x : Slot) : Except Stop (Option ByteString) :=
  match o.currentCache with
  | none => .error (.throw (.failure .getUnselected))
  | some mode => .ok (o.map mode (L.key x))

/-- Whether a contract exists, from the value under its marker. -/
def existence (k : ContractKey) : Option ByteString → Except Stop Bool
  | none => .ok false
  | some storeValue =>
    if storeValue = k.prefixedKey then .ok true
    else .error (.throw (.error (.contractInconsistent k.prefixedKey storeValue)))

def hasContract (o : Overlay L) (k : ContractKey) : Except Stop Bool := do existence k (← o.stored (.contract k))

def value (o : Overlay L) (c : Cell) : Except Stop c.Val := do
  match o.pending c with
  | some val => copy val
  | none => copy (← decoded (← o.stored (.data c)))

def write (o : Overlay L) (c : Cell) (val : c.Val) : Overlay L :=
  { o with pending := Function.update o.pending c (some val) }

def mark [DecidableEq K] (o : Overlay L) (k : ContractKey) : Overlay L :=
  match o.currentCache with
  | none => o
  | some .check => { o with checkCache := Function.update o.checkCache (L.key (.contract k)) (some k.prefixedKey) }
  | some .apply => { o with applyCache := Function.update o.applyCache (L.key (.contract k)) (some k.prefixedKey) }

/-- The bytes a pending value is stored as. -/
abbrev encoded : (c : Cell) → c.Val → ByteString := fun _ val => serialize val

/-- No two pending cells share a key. -/
abbrev Separate (o : Overlay L) : Prop := WriteBack.Separate (fun c => L.key (.data c)) o.pending

/-- `applyCache` after a flush: what was assigned in apply mode is written, what was assigned in check
mode is forgotten. -/
noncomputable def flushed (o : Overlay L) : K → Option ByteString :=
  match o.currentCache with
  | some .apply => WriteBack.commit (WriteBack.writes (fun c => L.key (.data c)) encoded o.pending) o.applyCache
  | some .check | none => o.applyCache

def getContract (k : ContractKey) : Exec Stop (Overlay L) Bool := do
  let o ← Exec.get
  Exec.ofExcept (o.hasContract k)

def load (k : ContractKey) : Exec Stop (Overlay L) Unit := do
  if ← getContract k then return ()
  else Exec.stop (.throw (.error (.contractMissing k.prefixedKey)))

def place [DecidableEq K] (k : ContractKey) : Exec Stop (Overlay L) Unit := do
  if ← getContract k then Exec.stop (.throw (.error (.contractExists k.prefixedKey)))
  else Exec.modify fun o => o.mark k

def read (c : Cell) : Exec Stop (Overlay L) c.Val := do
  let o ← Exec.get
  Exec.ofExcept (o.value c)

def assign (c : Cell) (val : c.Val) : Exec Stop (Overlay L) Unit := do
  let val ← Exec.ofExcept (copy val)
  Exec.modify fun o => o.write c val

def switchTo (mode : PrimaryMode) : Exec Stop (Overlay L) Unit :=
  Exec.modify fun o => { o with currentCache := some mode }

def reset : Exec Stop (Overlay L) Unit := Exec.modify fun o => { o with pending := fun _ => none }

open Classical in
/-- A write to an unselected map throws out of a destructor. -/
noncomputable def flush : Exec Stop (Overlay L) Unit := do
  let o ← Exec.get
  if o.currentCache = none ∧ ∃ c, o.pending c ≠ none then Exec.stop .crash
  else Exec.modify fun o => { checkCache := o.flushed, applyCache := o.flushed }

noncomputable instance [DecidableEq K] : Storage (Overlay L) where
  load := load
  place := place
  read := read
  assign := assign
  switchToCheck := switchTo .check
  switchToApply := switchTo .apply
  reset := reset
  flush := flush

/-! ### What the operations do -/

section

variable (o : Overlay L) (c : Cell) (val : c.Val)

@[simp] theorem write_checkCache : (o.write c val).checkCache = o.checkCache := rfl

@[simp] theorem write_applyCache : (o.write c val).applyCache = o.applyCache := rfl

@[simp] theorem write_currentCache : (o.write c val).currentCache = o.currentCache := rfl

@[simp] theorem write_stored (x : Slot) : (o.write c val).stored x = o.stored x := rfl

@[simp] theorem write_hasContract (k : ContractKey) : (o.write c val).hasContract k = o.hasContract k := rfl

@[simp] theorem write_pending_self : (o.write c val).pending c = some val := Function.update_self ..

theorem write_pending_ne {c' : Cell} (other : c' ≠ c) : (o.write c val).pending c' = o.pending c' :=
  Function.update_of_ne other ..

theorem write_value_self (whole : intact val = true) : (o.write c val).value c = .ok val := by
  rw [value, write_pending_self]
  exact if_pos whole

theorem write_value_ne {c' : Cell} (other : c' ≠ c) : (o.write c val).value c' = o.value c' := by
  rw [value, write_pending_ne _ _ _ other]
  rfl

end

@[simp] theorem mark_pending [DecidableEq K] (o : Overlay L) (k : ContractKey) : (o.mark k).pending = o.pending := by
  unfold mark
  split <;> rfl

@[simp] theorem mark_currentCache [DecidableEq K] (o : Overlay L) (k : ContractKey) :
    (o.mark k).currentCache = o.currentCache := by
  unfold mark
  split <;> rfl

/-- The maps agree on what belongs to accounts; in check mode nothing else is read. -/
def Agree (o : Overlay L) : Prop :=
  ∀ {x : Slot} {a : Ident}, x.owner = .account a → o.checkCache (L.key x) = o.applyCache (L.key x)

theorem stored_of_current {o : Overlay L} {mode : PrimaryMode} (current : o.currentCache = some mode) (x : Slot) :
    o.stored x = .ok (o.map mode (L.key x)) := by
  rw [stored, current]

theorem existence_true {k : ContractKey} {held : Option ByteString} :
    existence k held = .ok true ↔ held = some k.prefixedKey := by
  cases held with
  | none => simp [existence]
  | some raw => by_cases same : raw = k.prefixedKey <;> simp [existence, same]

theorem existence_false {k : ContractKey} {held : Option ByteString} :
    existence k held = .ok false ↔ held = none := by
  cases held with
  | none => simp [existence]
  | some raw => by_cases same : raw = k.prefixedKey <;> simp [existence, same]

theorem hasContract_of_current {o : Overlay L} {mode : PrimaryMode} (current : o.currentCache = some mode)
    (k : ContractKey) : o.hasContract k = existence k (o.map mode (L.key (.contract k))) := by
  rw [hasContract, stored_of_current current]
  rfl

theorem mark_apply [DecidableEq K] {o : Overlay L} (current : o.currentCache = some .apply) (k : ContractKey) :
    o.mark k = { o with applyCache := Function.update o.applyCache (L.key (.contract k)) (some k.prefixedKey) } := by
  obtain ⟨checkCache, applyCache, currentCache, pending⟩ := o
  obtain rfl : currentCache = some .apply := current
  rfl

theorem mark_applyCache [DecidableEq K] {o : Overlay L} (current : o.currentCache = some .apply) (k : ContractKey) :
    (o.mark k).applyCache = Function.update o.applyCache (L.key (.contract k)) (some k.prefixedKey) := by
  rw [mark_apply current]

theorem hasContract_true {o : Overlay L} (current : o.currentCache = some .apply) {k : ContractKey} :
    o.hasContract k = .ok true ↔ o.applyCache (L.key (.contract k)) = some k.prefixedKey := by
  rw [hasContract_of_current current, map_apply, existence_true]

theorem hasContract_false {o : Overlay L} (current : o.currentCache = some .apply) {k : ContractKey} :
    o.hasContract k = .ok false ↔ o.applyCache (L.key (.contract k)) = none := by
  rw [hasContract_of_current current, map_apply, existence_false]

theorem hasContract_mark_self [DecidableEq K] {o : Overlay L} (current : o.currentCache = some .apply)
    (k : ContractKey) : (o.mark k).hasContract k = .ok true := by
  rw [hasContract_true ((mark_currentCache o k).trans current), mark_apply current]
  exact Function.update_self ..

theorem hasContract_mark_ne [DecidableEq K] {o : Overlay L} (current : o.currentCache = some .apply)
    {k k' : ContractKey} (other : k' ≠ k) : (o.mark k).hasContract k' = o.hasContract k' := by
  have apart : L.key (.contract k') ≠ L.key (.contract k) := fun same => other (L.marker_inj same)
  rw [hasContract_of_current current, hasContract_of_current ((mark_currentCache o k).trans current),
    mark_apply current]
  exact congrArg (existence k') (Function.update_of_ne apart ..)

theorem getContract_apply (o : Overlay L) (k : ContractKey) : getContract k o = (o.hasContract k, o) := rfl

theorem load_ok {o o' : Overlay L} {k : ContractKey} (h : load k o = (.ok (), o')) :
    o = o' ∧ o.hasContract k = .ok true := by
  obtain ⟨found, _, got, h⟩ := Exec.bind_ok h
  obtain ⟨answer, rfl⟩ := Prod.mk.inj got
  cases found with
  | true => exact ⟨(Prod.mk.inj h).2, answer⟩
  | false => cases h

theorem place_ok [DecidableEq K] {o o' : Overlay L} {k : ContractKey} (h : place k o = (.ok (), o')) :
    o' = o.mark k ∧ o.hasContract k = .ok false := by
  obtain ⟨found, _, got, h⟩ := Exec.bind_ok h
  obtain ⟨answer, rfl⟩ := Prod.mk.inj got
  cases found with
  | true => cases h
  | false => exact ⟨(Prod.mk.inj h).2.symm, answer⟩

theorem read_apply (o : Overlay L) (c : Cell) : read c o = (o.value c, o) := rfl

theorem read_ok {o o' : Overlay L} {c : Cell} {val : c.Val} (h : read c o = (.ok val, o')) :
    o = o' ∧ o.value c = .ok val :=
  ⟨(Prod.mk.inj h).2, (Prod.mk.inj h).1⟩

theorem value_of_pending {o : Overlay L} {c : Cell} {val : c.Val} (held : o.pending c = some val)
    (whole : intact val = true) : o.value c = .ok val := by
  rw [value, held]
  exact if_pos whole

theorem value_of_clear {o : Overlay L} {mode : PrimaryMode} (current : o.currentCache = some mode) {c : Cell}
    (clear : o.pending c = none) : o.value c = (do copy (← decoded (o.map mode (L.key (.data c))))) := by
  rw [value, clear, stored_of_current current]
  rfl

/-- A value of a type without null pointers is what the map decodes to. -/
theorem value_eq_decoded {o : Overlay L} {mode : PrimaryMode} (current : o.currentCache = some mode) {c : Cell}
    (clear : o.pending c = none) (always : ∀ val : c.Val, intact val = true) :
    o.value c = decoded (o.map mode (L.key (.data c))) := by
  rw [value_of_clear current clear]
  rcases decoded (α := c.Val) (o.map mode (L.key (.data c))) with e | val
  · rfl
  · exact if_pos (always val)

theorem copy_ok {α : Type} [Serial α] {val val' : α} (h : copy val = .ok val') : val' = val ∧ intact val = true := by
  unfold copy at h
  split at h
  · cases h; exact ⟨rfl, ‹_›⟩
  · cases h

theorem assign_ok {o o' : Overlay L} {c : Cell} {val : c.Val} (h : assign c val o = (.ok (), o')) :
    o' = o.write c val ∧ intact val = true := by
  rw [assign, Exec.bind_apply, Exec.ofExcept_apply] at h
  rcases copied : copy val with e | val' <;> rw [copied] at h
  · cases h
  · obtain ⟨rfl, whole⟩ := copy_ok copied
    exact ⟨(Prod.mk.inj h).2.symm, whole⟩

/-! ### What a flush writes -/

theorem flushed_pending {o : Overlay L} (current : o.currentCache = some .apply) (separate : o.Separate) {c : Cell}
    {val : c.Val} (held : o.pending c = some val) : o.flushed (L.key (.data c)) = some (serialize val) := by
  rw [flushed, current]
  exact WriteBack.commit_of_pending separate o.applyCache held

theorem flushed_untouched {o : Overlay L} {k : K} (untouched : ∀ c, L.key (.data c) = k → o.pending c = none) :
    o.flushed k = o.applyCache k := by
  unfold flushed
  rcases o.currentCache with _ | _ | _
  · rfl
  · rfl
  · exact WriteBack.commit_of_untouched o.applyCache untouched

theorem flushed_of_check {o : Overlay L} (other : o.currentCache ≠ some .apply) : o.flushed = o.applyCache := by
  unfold flushed
  rcases selected : o.currentCache with _ | _ | _
  · rfl
  · rfl
  · exact (other selected).elim

theorem flushed_of_none {o : Overlay L} (nothing : ∀ c, o.pending c = none) : o.flushed = o.applyCache :=
  funext fun _ => flushed_untouched fun c _ => nothing c

/-- A flush deletes nothing. -/
theorem applyCache_of_flushed {o : Overlay L} (current : o.currentCache = some .apply) {k : K} (clear : o.flushed k = none) :
    o.applyCache k = none := by
  rw [flushed, current] at clear
  exact WriteBack.clear_of_commit clear

theorem flush_apply {o : Overlay L} (selected : (∃ c, o.pending c ≠ none) → o.currentCache ≠ none) :
    flush o = (.ok (), { checkCache := o.flushed, applyCache := o.flushed }) := by
  rw [flush, Exec.bind_of_ok (Exec.get_apply _), if_neg fun h => selected h.2 h.1]
  rfl

/-- The store of a flush, with apply mode selected again. -/
noncomputable def rewound (o : Overlay L) : Overlay L where
  checkCache := o.flushed
  applyCache := o.flushed
  currentCache := some .apply

/-- A cell reads the same after a flush, where no other cell was written at its key. -/
theorem value_rewound {o : Overlay L} (current : o.currentCache = some .apply) (separate : o.Separate) {c : Cell}
    (whole : ∀ val, o.pending c = some val → intact val = true)
    (alone : ∀ c', L.key (.data c') = L.key (.data c) → o.pending c' ≠ none → c' = c) : o.rewound.value c = o.value c := by
  have after : o.rewound.value c = (do copy (← decoded (o.flushed (L.key (.data c))))) :=
    value_of_clear (show o.rewound.currentCache = some .apply from rfl) rfl
  rcases held : o.pending c with _ | val
  · rw [after, value_of_clear current held, map_apply, flushed_untouched]
    intro c' same
    by_contra written
    rw [alone c' same written, held] at written
    exact written rfl
  · have read : decoded (some (serialize val)) = .ok val := deserialize_serialize (whole val held)
    rw [after, flushed_pending current separate held, value_of_pending held (whole val held), read]
    exact if_pos (whole val held)

theorem hasContract_rewound {o : Overlay L} (current : o.currentCache = some .apply) {k : ContractKey}
    (alone : ∀ c, L.key (.data c) = L.key (.contract k) → o.pending c = none) : o.rewound.hasContract k = o.hasContract k := by
  rw [hasContract_of_current current, hasContract_of_current (show o.rewound.currentCache = some .apply from rfl)]
  exact congrArg (existence k) (flushed_untouched alone)

/-- A marker leaves the cells that have keys of their own. -/
theorem value_mark [DecidableEq K] {o : Overlay L} (current : o.currentCache = some .apply) {k : ContractKey} {c : Cell}
    (other : L.key (.data c) ≠ L.key (.contract k)) : (o.mark k).value c = o.value c := by
  have stored : (o.mark k).stored (.data c) = o.stored (.data c) := by
    rw [stored_of_current current, stored_of_current ((mark_currentCache o k).trans current), mark_apply current]
    exact congrArg Except.ok (Function.update_of_ne other ..)
  rw [value, value, mark_pending, stored]

theorem value_mark_own [DecidableEq K] {o : Overlay L} (current : o.currentCache = some .apply) {k : ContractKey} {c : Cell}
    (own : L.Own c) : (o.mark k).value c = o.value c :=
  value_mark current fun same => by cases own _ same.symm

theorem value_rewound_own {o : Overlay L} (current : o.currentCache = some .apply) (separate : o.Separate)
    (whole : ∀ c val, o.pending c = some val → intact val = true) {c : Cell} (own : L.Own c) : o.rewound.value c = o.value c :=
  value_rewound current separate (whole c) fun _ same _ => Slot.data.inj (own _ same)

end Overlay

end BandChain
