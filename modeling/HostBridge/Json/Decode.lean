import HostBridge.Json.Value

/-!
# Decoding JSON values

A record is decoded from its fields. They are given by name, in any order, or without names in the
order in which the record declares them. A field is required, or has a default that stands for an
absent one, or may be absent or null. Members with other names are ignored, but a field may not be
given twice.

A value of several kinds has a tag that tells the kind, and the fields that go with it.

Quantities have a range: offsets fit into 32 bits with a sign, identities into 32 bits without one,
constants into 64 bits with one.
-/

namespace HostBridge.Json

/-! ### Scalars -/

def text? : Json → Option String
  | text s => some s
  | _ => none

/-- A truth value. -/
def bool? : Json → Option Bool
  | bool b => some b
  | _ => none

/-- An integer between bounds. -/
def integerIn? (least greatest : Int) : Json → Option Int
  | integer n => if least ≤ n ∧ n ≤ greatest then some n else none
  | _ => none

/-- An offset, a line or a column. -/
def offset? : Json → Option Int := integerIn? (-0x80000000) 0x7fffffff

/-- An integer constant. -/
def int64? : Json → Option Int := integerIn? (-0x8000000000000000) 0x7fffffffffffffff

/-- An identity. -/
def uint32? (j : Json) : Option UInt32 := (integerIn? 0 0xffffffff j).map fun n => n.toNat.toUInt32

/-- A byte. -/
def byte? (j : Json) : Option UInt8 := (integerIn? 0 255 j).map fun n => n.toNat.toUInt8

/-- The name of one of several constants: a string, or an object whose only member has that name and
is null. -/
def constantName? : Json → Option String
  | text s => some s
  | object [(name, null)] => some name
  | _ => none

/-! ### Lists -/

def listWithin? {α : Type} (j : Json) (decode : (x : Json) → sizeOf x < sizeOf j → Option α) :
    Option (List α) :=
  j.elements?.bind fun elements => elements.mapM fun x => decode x.1 x.2

def list? {α : Type} (decode : Json → Option α) (j : Json) : Option (List α) :=
  j.listWithin? fun x _ => decode x

/-! ### Records -/

/-- The fields of a record. -/
structure Record (j : Json) where
  fields : List (String × Part j)

/-- The record with these fields. Where they are not named, the last ones may be left out. -/
def Contents.record? {j : Json} (names : List String) : Contents j → Option (Record j)
  | .named members =>
    if names.all fun name => (members.filter fun m => m.1 == name).length ≤ 1 then some ⟨members⟩
    else none
  | .ordered elements =>
    if elements.length ≤ names.length then some ⟨names.zip elements⟩ else none

/-- The record with these fields. -/
def record? (j : Json) (names : List String) : Option (Record j) :=
  j.contents?.bind fun contents => contents.record? names

namespace Record

variable {j : Json} {α : Type}

/-- The value of a field. -/
def field? (r : Record j) (name : String) : Option (Part j) := r.fields.lookup name

/-! Each kind of field comes in two forms: one for plain decoders, and one for decoders that recurse
and need to know that the field is smaller than its record. -/

def requiredWithin (r : Record j) (name : String)
    (decode : (x : Json) → sizeOf x < sizeOf j → Option α) : Option α :=
  (r.field? name).bind fun x => decode x.1 x.2

def defaultedWithin (r : Record j) (name : String) (default : α)
    (decode : (x : Json) → sizeOf x < sizeOf j → Option α) : Option α :=
  match r.field? name with
  | none => some default
  | some x => decode x.1 x.2

def nullableWithin (r : Record j) (name : String)
    (decode : (x : Json) → sizeOf x < sizeOf j → Option α) : Option (Option α) :=
  match r.field? name with
  | none => some none
  | some ⟨null, _⟩ => some none
  | some x => (decode x.1 x.2).map some

def required (r : Record j) (name : String) (decode : Json → Option α) : Option α :=
  r.requiredWithin name fun x _ => decode x

def defaulted (r : Record j) (name : String) (default : α) (decode : Json → Option α) : Option α :=
  r.defaultedWithin name default fun x _ => decode x

def nullable (r : Record j) (name : String) (decode : Json → Option α) : Option (Option α) :=
  r.nullableWithin name fun x _ => decode x

end Record

/-! ### Values of several kinds -/

/-- How a tag tells the kind. -/
inductive TagForm where
  | name
  /-- By its name, or by its place among the kinds. -/
  | nameOrPlace
deriving DecidableEq

/-- The kind that a tag tells. -/
def TagForm.kind? (form : TagForm) (kinds : List String) : Json → Option String
  | .text s => kinds.find? (· == s)
  | .integer n => if form = nameOrPlace ∧ 0 ≤ n then kinds[n.toNat]? else none
  | _ => none

/-- The tag of that name and the other contents. The tag is a member that is given once, or it is
the first element. -/
def Contents.tag? {j : Json} (name : String) : Contents j → Option (Part j × Contents j)
  | .named members =>
    match members.partition fun m => m.1 == name with
    | ([tag], others) => some (tag.2, .named others)
    | _ => none
  | .ordered (tag :: others) => some (tag, .ordered others)
  | .ordered [] => none

/-- The kind that the tag of that name tells, and the other contents. -/
def Contents.kind? {j : Json} (contents : Contents j) (tag : String) (kinds : List String)
    (form : TagForm) : Option (String × Contents j) := do
  let (value, others) ← contents.tag? tag
  return (← form.kind? kinds value.1, others)

end HostBridge.Json
