/-!
# JSON values

Values as a document holds them, with the readers that give a default where the value
is of another type.  A number is an integer, or another double by its bits.
-/

namespace Waterdisco

inductive Json where
  | null
  | bool (value : Bool)
  | num (value : Int)
  | double (bits : UInt64)
  | str (value : String)
  | arr (items : List Json)
  | obj (members : List (String × Json))
deriving Repr

namespace Json

def value (j : Json) (key : String) : Json :=
  match j with
  | .obj members =>
    match members.find? (fun m => m.1 == key) with
    | some m => m.2
    | none => .null
  | _ => .null

def toArray : Json → List Json
  | .arr items => items
  | _ => []

def toObject : Json → List (String × Json)
  | .obj members => members
  | _ => []

def isObject : Json → Bool
  | .obj _ => true
  | _ => false

def toBool : Json → Bool
  | .bool b => b
  | _ => false

def toStr : Json → String
  | .str s => s
  | _ => ""

/-- A list of texts; sing-box also takes a single text where it wants a list. -/
def toTexts : Json → List String
  | .str s => [s]
  | .arr items => items.map toStr
  | _ => []

def contains (j : Json) (key : String) : Bool :=
  match j with
  | .obj members => members.any (fun m => m.1 == key)
  | _ => false

/-- An object without members, or no object at all. -/
def isEmptyObject : Json → Bool
  | .obj members => members.isEmpty
  | _ => true

end Json

end Waterdisco
