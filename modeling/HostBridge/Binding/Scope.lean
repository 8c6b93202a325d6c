import HostBridge.Binding.Environment

/-!
# Scopes

Building the scope of a file gives every declared type its identity: the segments of the package,
then the name of the type, with the names of the enclosing types in front, joined by `$`. The
identities are registered in the order in which the types are walked.
-/

namespace HostBridge

def binaryName (outer : Option String) (name : String) : String :=
  match outer with
  | none => name
  | some outer => outer ++ "$" ++ name

mutual

/-- Gives a type and the types nested in it their identities. -/
def TypeDeclaration.bind (package : List String) (outer : Option String) :
    TypeDeclaration → TypeDeclaration
  | ⟨content, memberTypes, _⟩ =>
    let name := binaryName outer content.name
    ⟨content, TypeDeclaration.bindAll package (some name) memberTypes, some ⟨package ++ [name]⟩⟩

/-- Gives the types of a forest their identities. -/
def TypeDeclaration.bindAll (package : List String) (outer : Option String) :
    List TypeDeclaration → List TypeDeclaration
  | [] => []
  | t :: ts => t.bind package outer :: TypeDeclaration.bindAll package outer ts

end

namespace DeclarationTree

/-- The tree with an identity for every type. -/
def bind (t : DeclarationTree) : DeclarationTree :=
  { t with types := TypeDeclaration.bindAll t.packageSegments none t.types }

/-- The identities of the types, in the order in which they are walked. -/
def bindings (t : DeclarationTree) : List TypeBinding := t.walk.filterMap (·.binding)

/-- The first identity whose qualified name is `className` or ends with it. -/
def findBinding? (t : DeclarationTree) (className : String) : Option TypeBinding :=
  t.bindings.find? fun b => className.toList.isSuffixOf b.qualifiedName.toList

end DeclarationTree

end HostBridge
