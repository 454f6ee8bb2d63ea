import BandChain.Store.Cells

/-! A `StorageMap` that destroys its cells in an order of its own, another one each time that the cache is cleared. -/

namespace BandChain

variable {K α : Type} [DecidableEq K] {L : Layout K} {orders : Nat → StorageMap L → List Member}

structure Shuffled (L : Layout K) (orders : Nat → StorageMap L → List Member) where
  store : StorageMap L := {}
  clears : Nat := 0

namespace Shuffled

def through (x : Exec Stop (StorageMap L) α) : Exec Stop (Shuffled L orders) α := fun w =>
  ((x w.store).1, { w with store := (x w.store).2 })

def clearing (x : List Member → Exec Stop (StorageMap L) Unit) : Exec Stop (Shuffled L orders) Unit := fun w =>
  ((x (orders w.clears w.store) w.store).1,
    { store := (x (orders w.clears w.store) w.store).2, clears := w.clears + 1 })

instance : Storage (Shuffled L orders) where
  load k := through (StorageMap.load k)
  place k := through (StorageMap.place k)
  read c := through (StorageMap.read c)
  assign c val := through (StorageMap.assign c val)
  switchToCheck := through StorageMap.switchToCheck
  switchToApply := through StorageMap.switchToApply
  reset := clearing StorageMap.clearIn
  flush := clearing StorageMap.flushIn

end Shuffled

namespace StorageMap

variable {s : StorageMap L} {order : List Member}

omit [DecidableEq K] in
theorem mem_puts_perm (perm : order.Perm s.members) (e : K × ByteString) : e ∈ puts L order ↔ e ∈ puts L s.members :=
  (perm.filterMap _).mem_iff

/-- Cells with keys of their own are written alike in every order. -/
theorem destroyAll_perm (perm : order.Perm s.members) (well : s.WellFormed) (separate : s.overlay.Separate)
    (selected : (∃ c, s.overlay.pending c ≠ none) → s.overlay.currentCache ≠ none) :
    destroyAll order ({ s with isFlushing := true } : StorageMap L) = destroyAll s.members { s with isFlushing := true } := by
  have sound : ∀ m ∈ s.members, m.2.Sound := fun m member => well.sound (cell_of_mem_members member)
  have sound' : ∀ m ∈ order, m.2.Sound := fun m member => sound m (perm.subset member)
  rcases Option.eq_none_or_eq_some s.currentCache with current | ⟨mode, current⟩
  · have unchanged : ∀ m ∈ s.members, m.2.status = .unchanged := by
      intro m member
      rcases (sound m member).written_cases with ⟨unchanged, _⟩ | ⟨val, _, _, written, _⟩
      · exact unchanged
      · have pending : s.pending m.1 = some val := (pending_of_cell (cell_of_mem_members member)).trans written
        exact (selected ⟨m.1, by simp [StorageMap.overlay, pending]⟩ current).elim
    have unchanged' : ∀ m ∈ order, m.2.status = .unchanged := fun m member => unchanged m (perm.subset member)
    exact (destroyAll_silent (Or.inr unchanged')).trans (destroyAll_silent (Or.inr unchanged)).symm
  · have once := WriteBack.putAll_eq_commit mem_puts separate.functional (s.map mode)
    have again := WriteBack.putAll_eq_commit (fun e => (mem_puts_perm perm e).trans (mem_puts e)) separate.functional (s.map mode)
    let t : StorageMap L := { s with isFlushing := true }
    have first : destroyAll order t = _ := destroyAll_flushing sound' rfl current
    have second : destroyAll s.members t = _ := destroyAll_flushing sound rfl current
    exact first.trans ((congrArg (fun m => (Except.ok (), t.withMap mode m)) (again.trans once.symm)).trans second.symm)

theorem flushIn_perm (perm : order.Perm s.members) (well : s.WellFormed) (separate : s.overlay.Separate)
    (selected : (∃ c, s.overlay.pending c ≠ none) → s.overlay.currentCache ≠ none) : flushIn order s = flush s := by
  have cleared : clearIn order ({ s with isFlushing := true } : StorageMap L) = clear { s with isFlushing := true } := by
    have destroyed := destroyAll_perm perm well separate selected
    rw [clearIn, clear, Exec.bind_apply, destroyed]
    rfl
  have rest (x : Exec Stop (StorageMap L) Unit) (same : x { s with isFlushing := true } = clear { s with isFlushing := true }) :
      (do Exec.modify fun s => { s with isFlushing := true }; x; commit; Exec.modify fun s => { s with isFlushing := false } :
        Exec Stop (StorageMap L) Unit) s = flush s := by
    rw [flush, Exec.bind_of_ok (Exec.modify_apply _ s), Exec.bind_of_ok (Exec.modify_apply _ s), Exec.bind_apply, Exec.bind_apply, same]
  exact rest _ cleared

/-- Outside a flush no order matters. -/
theorem clearIn_idle (idle : s.isFlushing = false) (order : List Member) : clearIn order s = reset s := by
  rw [reset, clear, clearIn, Exec.bind_of_ok (Exec.get_apply _), Exec.bind_of_ok (destroyAll_silent (Or.inl idle)),
    Exec.bind_of_ok (destroyAll_silent (Or.inl idle))]

end StorageMap

end BandChain
