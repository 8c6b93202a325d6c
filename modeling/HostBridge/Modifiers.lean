import HostBridge.Text.Blank
import HostBridge.Text.Hex
import HostBridge.Text.Pieces

/-!
# Access flags

A set of access flags is a 32-bit word with one bit for each flag. Front end and host number the
flags alike, so a set passes from one to the other unchanged, apart from the flags that the
declaration builder takes away. Bits without a name are kept.

The written form lists names joined by `|`, in the order of their bits, and then the bits without a
name as one hexadecimal number: `Modifiers.text` writes it and `Modifiers.ofText?` reads it.
-/

namespace HostBridge

structure Modifiers where
  /-- The word whose bits are the flags. -/
  bits : UInt32
deriving DecidableEq, Repr, Inhabited

namespace Modifiers

def none : Modifiers := ⟨0⟩

def union (a b : Modifiers) : Modifiers := ⟨a.bits ||| b.bits⟩

/-- The flags of the first set that are not in the second. -/
def without (a b : Modifiers) : Modifiers := ⟨a.bits &&& ~~~b.bits⟩

/-- Whether every flag of the second set is in the first. -/
def contains (a b : Modifiers) : Bool := a.bits &&& b.bits == b.bits

def intersects (a b : Modifiers) : Bool := a.bits &&& b.bits != 0

instance : OrOp Modifiers := ⟨union⟩

/-! ### The flags -/

def accPublic : Modifiers := ⟨0x0001⟩
def accPrivate : Modifiers := ⟨0x0002⟩
def accProtected : Modifiers := ⟨0x0004⟩
def accStatic : Modifiers := ⟨0x0008⟩
def accFinal : Modifiers := ⟨0x0010⟩
def accSynchronized : Modifiers := ⟨0x0020⟩
def accVolatile : Modifiers := ⟨0x0040⟩
def accTransient : Modifiers := ⟨0x0080⟩
def accNative : Modifiers := ⟨0x0100⟩
def accInterface : Modifiers := ⟨0x0200⟩
def accAbstract : Modifiers := ⟨0x0400⟩
def accStrict : Modifiers := ⟨0x0800⟩
def accSynthetic : Modifiers := ⟨0x1000⟩
def accAnnotation : Modifiers := ⟨0x2000⟩
def accEnum : Modifiers := ⟨0x4000⟩

/-- The flags with their names, in the order of their bits. -/
def named : List (String × Modifiers) :=
  [("PUBLIC", accPublic), ("PRIVATE", accPrivate), ("PROTECTED", accProtected),
    ("STATIC", accStatic), ("FINAL", accFinal), ("SYNCHRONIZED", accSynchronized),
    ("VOLATILE", accVolatile),
    ("TRANSIENT", accTransient), ("NATIVE", accNative), ("INTERFACE", accInterface),
    ("ABSTRACT", accAbstract), ("STRICT", accStrict), ("SYNTHETIC", accSynthetic),
    ("ANNOTATION", accAnnotation), ("ENUM", accEnum)]

/-! ### The written form -/

/-- The bits of the set that have no name. -/
def unnamed (m : Modifiers) : Modifiers :=
  m.without (named.foldl (fun acc flag => acc.union flag.2) none)

/-- The written form of a set: its names in the order of their bits, then its unnamed bits. -/
def text (m : Modifiers) : String :=
  let names := (named.filter fun flag => m.contains flag.2).map (·.1)
  let rest := m.unnamed
  " | ".intercalate
    (if rest.bits = 0 then names else names ++ ["0x" ++ Text.hexDigits rest.bits.toNat])

/-- The text of a set in a log, where the empty set shows as a number. -/
def describe (m : Modifiers) : String :=
  "Modifiers(" ++ (if m.bits = 0 then "0x0" else m.text) ++ ")"

/-- The number that hexadecimal digits write, if there is at least one and the number fits into 32
bits. A plus sign may stand before the digits. -/
def hexNumber? (cs : List Char) : Option UInt32 := do
  let digits := if cs.head? = some '+' then cs.drop 1 else cs
  if digits.isEmpty then failure
  let n ← digits.foldlM (fun n c => (Text.hexDigit? c).map (16 * n + ·)) 0
  if n ≤ 0xffffffff then some n.toUInt32 else failure

/-- The flags that one part of the written form stands for: the flag of that name, or the bits of a
number that starts with `0x`. -/
def ofPart? (part : List Char) : Option Modifiers :=
  match part with
  | '0' :: 'x' :: digits => (hexNumber? digits).map Modifiers.mk
  | _ => named.lookup (String.ofList part)

/-- Reads the written form of a set. A blank text is the empty set; otherwise each part between
bars, without the blanks around it, is a flag's name or a number. -/
def ofText? (s : String) : Option Modifiers :=
  if (Text.trim s.toList).isEmpty then some none
  else
    (Text.pieces '|' s.toList).foldlM
      (fun acc part => (ofPart? (Text.trim part)).map acc.union) none

end Modifiers

end HostBridge
