/-! # Autosave

    A burst of edits is saved once: every edit starts the delay anew, and the first poll after the
    delay has passed fires. Times are milliseconds; a clock that goes back counts as one that
    stands still.
-/

namespace FoamTray

/-- Whether an edit waits to be saved. -/
structure Autosave where
  /-- How long after the last edit it is saved. -/
  delay : Nat
  /-- When the last edit was made, while it waits. -/
  lastEdit : Option Nat
  deriving DecidableEq, Repr

namespace Autosave

/-- Nothing waits. -/
def make (delay : Nat) : Autosave := ⟨delay, none⟩

/-- An edit was made. -/
def notify (a : Autosave) (now : Nat) : Autosave := { a with lastEdit := some now }

/-- Nothing waits any more. -/
def cancel (a : Autosave) : Autosave := { a with lastEdit := none }

/-- Whether an edit waits. -/
def isPending (a : Autosave) : Bool := a.lastEdit.isSome

/-- Whether an edit has waited long enough. -/
def isDue (a : Autosave) (now : Nat) : Bool :=
  match a.lastEdit with
  | some t => a.delay ≤ now - t
  | none => false

/-- Fires if an edit has waited long enough; then nothing waits any more. -/
def poll (a : Autosave) (now : Nat) : Bool × Autosave :=
  if a.isDue now then (true, a.cancel) else (false, a)

@[simp] theorem isPending_notify (a : Autosave) (now : Nat) : (a.notify now).isPending = true := rfl

@[simp] theorem isPending_cancel (a : Autosave) : a.cancel.isPending = false := rfl

/-- A poll that fires leaves nothing waiting, and one that does not changes nothing. -/
theorem poll_snd (a : Autosave) (now : Nat) :
    (a.poll now).2 = if (a.poll now).1 then a.cancel else a := by
  unfold poll
  split <;> rfl

end Autosave

end FoamTray
