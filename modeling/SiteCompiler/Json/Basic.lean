namespace SiteCompiler

/-- A JSON number: an integer of at most 64 bits, signed or unsigned, or a floating-point number. -/
inductive Json.Number where
  | integer (i : Int)
  | float (f : Float)
deriving Inhabited

inductive Json where
  | null
  | bool (b : Bool)
  | number (n : Json.Number)
  | string (s : String)
  | array (elements : List Json)
  | object (members : List (String × Json))
deriving Inhabited

namespace Json

def ofNat (n : Nat) : Json :=
  .number (.integer n)

def ofOption (f : α → Json) : Option α → Json
  | none => .null
  | some a => f a

def ofStrings (ss : List String) : Json :=
  .array (ss.map .string)

def member? (key : String) : Json → Option Json
  | object members => members.lookup key
  | _ => none

def string? : Json → Option String
  | string s => some s
  | _ => none

def bool? : Json → Option Bool
  | bool b => some b
  | _ => none

def nat? : Json → Option Nat
  | number (.integer (.ofNat n)) => some n
  | _ => none

def array? : Json → Option (List Json)
  | array elements => some elements
  | _ => none

def object? : Json → Option (List (String × Json))
  | object members => some members
  | _ => none

/-- Puts a member at its place in key order; a later member replaces an earlier one. -/
def insertMember (key : String) (value : α) : List (String × α) → List (String × α)
  | [] => [(key, value)]
  | (k, v) :: rest =>
    if key < k then (key, value) :: (k, v) :: rest
    else if key = k then (key, value) :: rest
    else (k, v) :: insertMember key value rest

def sortMembers (members : List (String × α)) : List (String × α) :=
  members.foldl (fun sorted (k, v) => insertMember k v sorted) []

end Json
end SiteCompiler
