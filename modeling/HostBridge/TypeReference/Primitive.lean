/-!
# Primitive types

Each primitive type has a keyword. In the signatures of class files each of them except `void` also
has a letter.
-/

namespace HostBridge

inductive Primitive where
  | boolean
  | byte
  | char
  | short
  | int
  | long
  | float
  | double
  | void
deriving DecidableEq, Repr, Inhabited

namespace Primitive

def all : List Primitive := [boolean, byte, char, short, int, long, float, double, void]

theorem mem_all (p : Primitive) : p ∈ all := by cases p <;> decide

def keyword : Primitive → String
  | boolean => "boolean"
  | byte => "byte"
  | char => "char"
  | short => "short"
  | int => "int"
  | long => "long"
  | float => "float"
  | double => "double"
  | void => "void"

def ofKeyword? (word : String) : Option Primitive := all.find? fun p => p.keyword = word

def letter? : Primitive → Option Char
  | boolean => some 'Z'
  | byte => some 'B'
  | char => some 'C'
  | short => some 'S'
  | int => some 'I'
  | long => some 'J'
  | float => some 'F'
  | double => some 'D'
  | void => none

def ofLetter? (c : Char) : Option Primitive := all.find? fun p => p.letter? = some c

theorem keyword_of_ofKeyword? {word : String} {p : Primitive} (h : ofKeyword? word = some p) :
    p.keyword = word := by
  simpa using List.find?_some h

theorem ofKeyword?_eq_none_iff {word : String} :
    ofKeyword? word = none ↔ ∀ p : Primitive, p.keyword ≠ word := by
  rw [ofKeyword?, List.find?_eq_none]
  exact ⟨fun h p hword => h p p.mem_all (by simpa using hword),
    fun h p _ hword => h p (by simpa using hword)⟩

theorem letter?_of_ofLetter? {c : Char} {p : Primitive} (h : ofLetter? c = some p) :
    p.letter? = some c := by
  simpa using List.find?_some h

end Primitive

end HostBridge
