import SqlSyntax.Storage.Growth

/-!
# Values for one user at a time

A value that is built on its first use and kept after it. Who uses it holds it alone: to ask for
it again before it is given back fails (`use_busy`).
-/

namespace SqlSyntax

structure Exclusive (α : Type) where
  /-- The value, once it was built. -/
  value : Option α := none
  inUse : Bool := false

namespace Exclusive

/-- Takes the value for use, built by `make` on the first use. -/
def acquire (make : α) (e : Exclusive α) : Except StorageError (α × Exclusive α) :=
  if e.inUse then .error .busy else .ok (e.value.getD make, { e with inUse := true })

/-- Gives the value back. -/
def release (a : α) (_ : Exclusive α) : Exclusive α := { value := some a }

/-- Uses the value, with itself as the user sees it meanwhile. -/
def use (make : α) (e : Exclusive α) (f : α → Exclusive α → β × α) :
    Except StorageError (β × Exclusive α) := do
  let (a, held) ← e.acquire make
  let (b, a) := f a held
  return (b, held.release a)

theorem use_busy (make : α) (e : Exclusive α) (f : α → Exclusive α → β × α)
    (h : e.inUse = true) : e.use make f = .error .busy := by
  simp [use, acquire, h, bind, Except.bind]

end Exclusive

end SqlSyntax
