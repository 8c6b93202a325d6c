import HostBridge.Declaration.Member
import HostBridge.Source.Class

/-!
# Overloads for default values

A method `m(a, b = 1, c = 2)` can be called as `m(a, b, c)`, `m(a, b)` and `m(a)`. The host knows no
default values, so each of these becomes a declaration of its own. From one list of arguments to the
next the last argument that still has a default is dropped; `(a, c)` is never among them.

* `getLast_droppingLast` — the last list holds the elements that are never dropped.
-/

namespace HostBridge

/-- The lists left when the elements that satisfy `p` are dropped one after the other, the last one
first. The list itself comes first. -/
def droppingLast {α : Type} (p : α → Bool) : List α → List (List α)
  | [] => [[]]
  | x :: xs =>
    (droppingLast p xs).map (x :: ·) ++ if p x then [xs.filter fun y => !p y] else []

/-- The lists of arguments with which a method can be called, the longest first. -/
def variants (parameters : List Source.Parameter) (arguments : List Argument) :
    List (List Argument) :=
  (droppingLast (fun pa => pa.1.hasDefault) (parameters.zip arguments)).map fun v => v.map (·.2)

theorem getLast_droppingLast {α : Type} (p : α → Bool) (xs : List α) :
    (droppingLast p xs).getLast? = some (xs.filter fun y => !p y) := by
  induction xs with
  | nil => rfl
  | cons x xs ih =>
    cases h : p x
    · simp [droppingLast, h, ih]
    · simp [droppingLast, h]

/-- Adds a declaration, unless it clashes with one that is already there. -/
def addUnlessClashing (declared : List MethodDeclaration) (m : MethodDeclaration) :
    List MethodDeclaration :=
  if declared.any (·.clashesWith m) then declared else declared ++ [m]

/-- Adds the declaration of a method, and if it has default values one declaration for each way to
call it. A declaration without default values is added even if it clashes with another one, so that
the host sees the mistake. -/
def addWithVariants (method : Source.Method) (m : MethodDeclaration)
    (declared : List MethodDeclaration) : List MethodDeclaration :=
  if method.hasDefaults then
    (variants method.parameters m.arguments).foldl
      (fun declared arguments => addUnlessClashing declared { m with arguments }) declared
  else declared ++ [m]

end HostBridge
