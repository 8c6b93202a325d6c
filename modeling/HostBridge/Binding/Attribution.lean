import HostBridge.Binding.Scope
import HostBridge.FrontEnd.Generated
import HostBridge.Report.Reporter
import HostBridge.Text.Affix

/-!
# Attributing generated classes

A generated class belongs to the class of a module that it is generated for: the class of its own
name, or the one whose name it continues after a `$`. Its code is recorded for the declared type of
that class. A generated class of another module, and one whose class has no declared type, is left
out.
-/

namespace HostBridge

/-- Whether a generated class is the class itself or is nested in it. -/
def belongsTo (generated className : String) : Bool :=
  generated == className ||
    match Text.afterPrefix? className.toList generated.toList with
    | some ('$' :: _) => true
    | _ => false

/-- The name of the class of a module that a generated class belongs to. If there are several the
last one counts. -/
def relatedClass? (m : Source.Module) (generated : String) : Option String :=
  ((m.classes.map (·.name)).filter (belongsTo generated)).getLast?

/-- The class file of a generated class, if it belongs to a declared type. -/
def attribute? (m : Source.Module) (tree : DeclarationTree) (g : GeneratedClass) :
    Option ClassFile := do
  let related ← relatedClass? m g.name
  let b ← tree.findBinding? related
  return ⟨g.name, b.qualifiedName, g.bytes⟩

/-- Records a class file for each generated class that belongs to a declared type. Their number
comes with the reporter. -/
def attributeAll (m : Source.Module) (tree : DeclarationTree) :
    List GeneratedClass → Reporter → Reporter × Nat
  | [], r => (r, 0)
  | g :: gs, r =>
    match attribute? m tree g with
    | none => attributeAll m tree gs r
    | some f =>
      let (r, recorded) := attributeAll m tree gs (r.recordClassFile f)
      (r, recorded + 1)

end HostBridge
