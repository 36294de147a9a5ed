import JobEngine.Settings.Value

/-!
# Variables as a tree

The name of a variable is a path: its parts stand between double underscores or points, and a number
in brackets is a place in a list.  A name that is no path is a single part.

* `Tree.ofVars`   the tree of the variables that begin with a common part.

A value that is set below another one takes its place.
-/

namespace JobEngine

inductive Tree
  | leaf (v : Scalar)
  | branch (children : List (String × Tree))
  /-- Something in brackets, which no setting is. -/
  | list
deriving Repr, Inhabited

namespace Tree

/-! ## names -/

/-- Small letters; the Kelvin sign is a capital of an ASCII letter too. -/
def smallName (s : String) : List Char :=
  s.toList.map fun c => if c = '\u212a' then 'k' else c.toLower

/-- Every double underscore becomes a point. -/
def pointed : List Char → List Char
  | '_' :: '_' :: cs => '.' :: pointed cs
  | c :: cs => c :: pointed cs
  | [] => []

/-- What follows the common part. -/
def below? (start name : List Char) : Option (List Char) :=
  if start.isPrefixOf name then some (name.drop start.length) else none

inductive Part
  | key (name : String)
  | place
deriving DecidableEq, Repr

def isNameChar (c : Char) : Bool := c.isAlphanum || c = '_' || c = '-'

/-- The parts of a path, from where a name has to follow. -/
def parts? : Nat → List Char → Option (List Part)
  | 0, _ => none
  | fuel + 1, cs =>
    let name := cs.takeWhile isNameChar
    if name.isEmpty then none else (rest? fuel (cs.dropWhile isNameChar)).map
      (Part.key (String.ofList name) :: ·)
where
  rest? : Nat → List Char → Option (List Part)
    | 0, _ => none
    | _ + 1, [] => some []
    | fuel + 1, '.' :: cs =>
      let name := cs.takeWhile isNameChar
      if name.isEmpty then none else (rest? fuel (cs.dropWhile isNameChar)).map
        (Part.key (String.ofList name) :: ·)
    | fuel + 1, '[' :: cs =>
      let (_, ds) := Number.signed cs
      match ds.takeWhile Char.isDigit, ds.dropWhile Char.isDigit with
      | _ :: _, ']' :: cs => (rest? fuel cs).map (Part.place :: ·)
      | _, _ => none
    | _ + 1, _ => none

def path (cs : List Char) : List Part :=
  (parts? (cs.length + 2) cs).getD [.key (String.ofList cs)]

/-! ## the tree -/

def child? (name : String) : List (String × Tree) → Option Tree
  | [] => none
  | (k, t) :: rest => if k = name then some t else child? name rest

def setChild (name : String) (t : Tree) : List (String × Tree) → List (String × Tree)
  | [] => [(name, t)]
  | (k, u) :: rest => if k = name then (name, t) :: rest else (k, u) :: setChild name t rest

/-- The tree with a value set at a path. -/
def set (v : Scalar) : List Part → Tree → Tree
  | [], _ => .leaf v
  | .place :: _, _ => .list
  | .key name :: rest, t =>
    let children := match t with
      | .branch cs => cs
      | _ => []
    .branch (setChild name (set v rest ((child? name children).getD (.branch []))) children)

/-- The tree of the variables whose names begin with `start`. -/
def ofVars (start : String) (vars : List (String × String)) : Tree :=
  vars.foldl (fun t (name, value) =>
    match below? start.toList (smallName name) with
    | some rest => set (.ofText value) (path (pointed rest)) t
    | none => t) (.branch [])

end Tree

end JobEngine
