import Predictive.Error
import Predictive.Note

/-!
# Reports

A report is the outcome of an operation together with the notes it made. Notes made before a failure stay.
-/

namespace Predictive

/-- The notes of an operation and its result or error. -/
structure Report (α : Type) where
  notes : List Note
  outcome : Except Error α

namespace Report

variable {α β : Type}

/-- A result without notes. -/
def done (a : α) : Report α := ⟨[], .ok a⟩

/-- An outcome without notes. -/
def of (outcome : Except Error α) : Report α := ⟨[], outcome⟩

/-- Notes alone. -/
def tell (notes : List Note) : Report Unit := ⟨notes, .ok ()⟩

/-- Goes on with the result; the notes of both parts are kept in order. -/
def andThen (r : Report α) (f : α → Report β) : Report β :=
  match r.outcome with
  | .ok a =>
    let s := f a
    ⟨r.notes ++ s.notes, s.outcome⟩
  | .error e => ⟨r.notes, .error e⟩

instance : Monad Report where
  pure := done
  bind := andThen

end Report

end Predictive
