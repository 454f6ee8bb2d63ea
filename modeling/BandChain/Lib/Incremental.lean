/-!
Taking items off the front of a buffer while more of it arrives. A step that an incomplete buffer
leaves alone, and that more input does not change, takes the same items however the input is cut.
-/

namespace Incremental

variable {α β : Type} {next : List β → Option (α × List β)}

/-- A step that takes something, and the same whatever follows. -/
structure Stable (next : List β → Option (α × List β)) : Prop where
  shorter : ∀ {buf a rest}, next buf = some (a, rest) → rest.length < buf.length
  append : ∀ {buf a rest} more, next buf = some (a, rest) → next (buf ++ more) = some (a, rest ++ more)

/-- The items are taken off the buffer one after the other, until no more can be taken off what is left. -/
inductive Drains (next : List β → Option (α × List β)) : List β → List α → List β → Prop where
  | done {buf} (stuck : next buf = none) : Drains next buf [] buf
  | more {buf a mid items tail} (taken : next buf = some (a, mid)) (rest : Drains next mid items tail) :
      Drains next buf (a :: items) tail

theorem Drains.stuck {buf tail : List β} {items : List α} (drains : Drains next buf items tail) : next tail = none := by
  induction drains with
  | done stuck => exact stuck
  | more _ _ ih => exact ih

theorem Drains.unique {buf tail tail' : List β} {items items' : List α} (first : Drains next buf items tail)
    (second : Drains next buf items' tail') : items = items' ∧ tail = tail' := by
  induction first generalizing items' with
  | done stuck =>
    cases second with
    | done _ => exact ⟨rfl, rfl⟩
    | more taken _ => cases stuck.symm.trans taken
  | more taken _ ih =>
    cases second with
    | done stuck => cases stuck.symm.trans taken
    | more taken' rest =>
      obtain ⟨rfl, rfl⟩ := Prod.mk.inj (Option.some.inj (taken.symm.trans taken'))
      obtain ⟨rfl, rfl⟩ := ih rest
      exact ⟨rfl, rfl⟩

theorem Stable.drains (stable : Stable next) (buf : List β) : ∃ items tail, Drains next buf items tail := by
  rcases taken : next buf with _ | ⟨a, mid⟩
  · exact ⟨[], buf, .done taken⟩
  · obtain ⟨items, tail, rest⟩ := stable.drains mid
    exact ⟨a :: items, tail, .more taken rest⟩
termination_by buf.length
decreasing_by exact stable.shorter taken

theorem Drains.append (stable : Stable next) {buf rest more tail : List β} {before after : List α} (first : Drains next buf before rest)
    (second : Drains next (rest ++ more) after tail) : Drains next (buf ++ more) (before ++ after) tail := by
  induction first with
  | done _ => exact second
  | more taken _ ih => exact .more (stable.append more taken) (ih second)

theorem Drains.split (stable : Stable next) {buf more tail : List β} {items : List α} (whole : Drains next (buf ++ more) items tail) :
    ∃ before after rest, Drains next buf before rest ∧ Drains next (rest ++ more) after tail ∧ items = before ++ after := by
  obtain ⟨before, rest, first⟩ := stable.drains buf
  obtain ⟨after, tail', second⟩ := stable.drains (rest ++ more)
  obtain ⟨rfl, rfl⟩ := whole.unique (first.append stable second)
  exact ⟨before, after, rest, first, second, rfl⟩

end Incremental
