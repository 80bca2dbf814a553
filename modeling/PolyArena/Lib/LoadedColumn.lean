import Mathlib.Data.Option.Basic

/-!
# A column that holds an object

An object-relational session loads an object for a nullable column and hands out references to it.
At the flush the column is written when the object that the attribute holds differs from the loaded
one, both as they are then: a loaded object that was changed in place does not differ from itself.

`extendInPlace` and `extendCopy` are the two ways of extending such an object, and
`extendInPlace_eq` and `extendCopy_eq` what each leaves in the database.
-/

namespace LoadedColumn

/-- What an attribute or a variable refers to: the loaded object, or one that was made since. -/
inductive Reference (α : Type*)
  | loaded
  | made (a : α)

/-- An attribute of a loaded row. -/
structure Attribute (α : Type*) where
  /-- What the database stores. -/
  column : Option α
  /-- The loaded object as it is now. -/
  object : Option α
  held : Reference α := .loaded

variable {α : Type*}

def load (column : Option α) : Attribute α := { column := column, object := column }

namespace Attribute

/-- The value behind a reference. -/
def deref (x : Attribute α) : Reference α → Option α
  | .loaded => x.object
  | .made a => some a

/-- `attribute or empty`. -/
def heldOr (x : Attribute α) (empty : α) : Reference α :=
  match x.deref x.held with
  | none => .made empty
  | some _ => x.held

/-- Change the object behind a reference. -/
def mutate (x : Attribute α) (f : α → α) : Reference α → Attribute α × Reference α
  | .loaded => ({ x with object := x.object.map f }, .loaded)
  | .made a => (x, .made (f a))

def assign (x : Attribute α) (r : Reference α) : Attribute α := { x with held := r }

/-- What the database stores after the flush. -/
def flush [DecidableEq α] (x : Attribute α) : Option α :=
  if x.deref x.held = x.object then x.column else x.deref x.held

end Attribute

variable [DecidableEq α]

/-- Load the object, extend it in place, and assign it to its own attribute. -/
def extendInPlace (empty : α) (f : α → α) (column : Option α) : Option α :=
  let x := load column
  let (x, r) := x.mutate f (x.heldOr empty)
  (x.assign r).flush

/-- Load the object and assign an extended copy. -/
def extendCopy (empty : α) (f : α → α) (column : Option α) : Option α :=
  let x := load column
  (x.assign (.made (f ((x.deref x.held).getD empty)))).flush

/-- **An object that is extended in place** is stored only when there was none. -/
theorem extendInPlace_eq (empty : α) (f : α → α) (column : Option α) :
    extendInPlace empty f column = some (column.getD (f empty)) := by
  cases column with
  | none =>
    show (if some (f empty) = none then none else some (f empty)) = some (f empty)
    exact if_neg (Option.some_ne_none _)
  | some a => exact if_pos rfl

/-- **A copy** is always stored. -/
theorem extendCopy_eq (empty : α) (f : α → α) (column : Option α) :
    extendCopy empty f column = some (f (column.getD empty)) := by
  cases column with
  | none =>
    show (if some (f empty) = none then none else some (f empty)) = some (f empty)
    exact if_neg (Option.some_ne_none _)
  | some a =>
    show (if some (f a) = some a then some a else some (f a)) = some (f a)
    split
    · next h => exact h.symm
    · rfl

end LoadedColumn
