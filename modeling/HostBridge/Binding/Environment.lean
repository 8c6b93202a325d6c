import HostBridge.Declaration.Tree

/-!
# Lookup environments

Types that other files may refer to are registered in an environment by their qualified names. The
first registration of a name stays.

* `lookup?_register_self` — after registering a binding its name is taken, by this binding or by the
  one before it;
* `lookup?_register_of_ne` — other names are not affected.
-/

namespace HostBridge

/-- The registered types, in the order of their registration. -/
structure Environment where
  bindings : List TypeBinding := []
deriving DecidableEq, Repr, Inhabited

namespace Environment

/-- The binding of a qualified name. -/
def lookup? (e : Environment) (name : String) : Option TypeBinding :=
  e.bindings.find? fun b => b.qualifiedName == name

/-- Whether a qualified name is taken. -/
def isTaken (e : Environment) (name : String) : Bool := (e.lookup? name).isSome

/-- Registers a binding, unless its name is taken. -/
def register (e : Environment) (b : TypeBinding) : Environment :=
  if e.isTaken b.qualifiedName then e else ⟨e.bindings ++ [b]⟩

/-- Registers bindings one after the other. -/
def registerAll (e : Environment) (bs : List TypeBinding) : Environment := bs.foldl register e

/-- The number of registered types. -/
def size (e : Environment) : Nat := e.bindings.length

theorem lookup?_register_self (e : Environment) (b : TypeBinding) :
    (e.register b).lookup? b.qualifiedName = some ((e.lookup? b.qualifiedName).getD b) := by
  rw [register]
  split
  · next h =>
    obtain ⟨c, hc⟩ := Option.isSome_iff_exists.1 h
    simp [hc]
  · next h =>
    rw [isTaken, Bool.not_eq_true, Option.isSome_eq_false_iff, Option.isNone_iff_eq_none] at h
    simp_all [lookup?, List.find?_append]

theorem lookup?_register_of_ne (e : Environment) {b : TypeBinding} {name : String}
    (h : b.qualifiedName ≠ name) : (e.register b).lookup? name = e.lookup? name := by
  rw [register]
  split
  · rfl
  · simp [lookup?, List.find?_append, h]

end Environment

end HostBridge
