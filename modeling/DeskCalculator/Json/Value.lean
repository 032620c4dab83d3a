import DeskCalculator.Number.Shortest

/-!
# JSON values

A number is an integer or a double, and the two stay apart. Integers are those of 64 bits, signed
or unsigned. The members of an object stand in a list; a text may hold them in any order and hold
a key twice, while a stored value has its keys in ascending order, each once.
-/

namespace DeskCalculator

/-- A JSON value. -/
inductive Json where
  | null
  | bool (b : Bool)
  | integer (n : Int)
  | float (x : Float)
  | string (s : String)
  | array (elements : List Json)
  | object (members : List (String × Json))
  /-- A part of a text that is well-formed but stands for no value: a number out of range, or a
  string that names half a surrogate pair. -/
  | unreadable

namespace Json

/-- Whether an integer is one of 64 bits, signed or unsigned. -/
def isInteger64 (n : Int) : Bool :=
  -2 ^ 63 ≤ n && n < 2 ^ 64

/-- The value of a double: infinities and what is no number become null. -/
def ofFloat (x : Float) : Json :=
  if x.isFinite then float x else null

/-- The value of an optional one. -/
def ofOption (f : α → Json) : Option α → Json
  | some a => f a
  | none => null

/-- Puts a member among members whose keys ascend; a member of the same key is replaced. -/
def insertMember (key : String) (value : Json) : List (String × Json) → List (String × Json)
  | [] => [(key, value)]
  | m :: ms =>
    if key < m.1 then (key, value) :: m :: ms
    else if key = m.1 then (key, value) :: ms
    else m :: insertMember key value ms

/-- The value under a key. -/
def findMember? (key : String) : List (String × Json) → Option Json
  | [] => none
  | m :: ms => if m.1 = key then some m.2 else findMember? key ms

/-- What has been put under a key is found there. -/
@[simp] theorem findMember?_insertMember_self (key : String) (value : Json)
    (members : List (String × Json)) :
    findMember? key (insertMember key value members) = some value := by
  induction members with
  | nil => simp [insertMember, findMember?]
  | cons m ms ih =>
    rw [insertMember]
    split
    · simp [findMember?]
    · split
      · simp [findMember?]
      · next h => simp [findMember?, Ne.symm h, ih]

/-- What stands under another key stays. -/
theorem findMember?_insertMember_of_ne {key other : String} (h : other ≠ key) (value : Json)
    (members : List (String × Json)) :
    findMember? other (insertMember key value members) = findMember? other members := by
  induction members with
  | nil => simp [insertMember, findMember?, Ne.symm h]
  | cons m ms ih =>
    rw [insertMember]
    split
    · simp [findMember?, Ne.symm h]
    · split
      · next he => simp [findMember?, ← he, Ne.symm h]
      · simp [findMember?, ih]

/-- Members with ascending keys, the last one of each key. -/
def sortMembers (members : List (String × Json)) : List (String × Json) :=
  members.foldl (fun sorted m ↦ insertMember m.1 m.2 sorted) []

mutual

/-- The value as it is stored: the keys of every object ascend, each once. -/
def sorted : Json → Json
  | array elements => array (sortedElements elements)
  | object members => object (sortMembers (sortedValues members))
  | null => null
  | bool b => bool b
  | integer n => integer n
  | float x => float x
  | string s => string s
  | unreadable => unreadable

/-- The elements of an array as they are stored. -/
def sortedElements : List Json → List Json
  | [] => []
  | v :: vs => sorted v :: sortedElements vs

/-- The members of an object with their values as they are stored. -/
def sortedValues : List (String × Json) → List (String × Json)
  | [] => []
  | (key, v) :: ms => (key, sorted v) :: sortedValues ms

end

mutual

/-- Whether every part of a value stands for something. -/
def isReadable : Json → Bool
  | unreadable => false
  | array elements => elementsReadable elements
  | object members => membersReadable members
  | _ => true

/-- Whether all elements of an array are readable. -/
def elementsReadable : List Json → Bool
  | [] => true
  | v :: vs => isReadable v && elementsReadable vs

/-- Whether the values of all members are readable. -/
def membersReadable : List (String × Json) → Bool
  | [] => true
  | (_, v) :: ms => isReadable v && membersReadable ms

end

mutual

/-- How many arrays and objects are nested in a value. -/
def depth : Json → Nat
  | array elements => elementsDepth elements + 1
  | object members => membersDepth members + 1
  | _ => 0

/-- The greatest depth among elements. -/
def elementsDepth : List Json → Nat
  | [] => 0
  | v :: vs => max (depth v) (elementsDepth vs)

/-- The greatest depth among members. -/
def membersDepth : List (String × Json) → Nat
  | [] => 0
  | (_, v) :: ms => max (depth v) (membersDepth ms)

end

end Json

end DeskCalculator
