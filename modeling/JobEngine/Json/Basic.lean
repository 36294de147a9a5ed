import JobEngine.Number.Binary64

/-!
# JSON values

* `Json`            values; whole numbers are exact, all others are binary64;
* `Json.get?`       the member of an object under a key;
* `Json.record`     an object from its members, keys in ascending order;
* `Json.Ordered`    all objects inside have strictly ascending keys.

A key occurs once in an object.  When one is given twice, the later value stands.
-/

namespace JobEngine

/-- A number of a JSON text. -/
inductive Number
  | int (n : Int)
  | float (x : Binary64)
deriving DecidableEq, Repr, Inhabited

inductive Json
  | null
  | bool (b : Bool)
  | num (n : Number)
  | str (s : String)
  | arr (items : List Json)
  | obj (members : List (String × Json))
deriving Repr, Inhabited

namespace Json

/-! ## equality -/

mutual

def decEq : (a b : Json) → Decidable (a = b)
  | .null, .null => isTrue rfl
  | .bool a, .bool b =>
    if h : a = b then isTrue (h ▸ rfl) else isFalse (fun e => h (by injection e))
  | .num a, .num b => if h : a = b then isTrue (h ▸ rfl) else isFalse (fun e => h (by injection e))
  | .str a, .str b => if h : a = b then isTrue (h ▸ rfl) else isFalse (fun e => h (by injection e))
  | .arr a, .arr b =>
    match decEqItems a b with
    | isTrue h => isTrue (h ▸ rfl)
    | isFalse h => isFalse (fun e => h (by injection e))
  | .obj a, .obj b =>
    match decEqMembers a b with
    | isTrue h => isTrue (h ▸ rfl)
    | isFalse h => isFalse (fun e => h (by injection e))
  | .null, .bool _ | .null, .num _ | .null, .str _ | .null, .arr _ | .null, .obj _
  | .bool _, .null | .bool _, .num _ | .bool _, .str _ | .bool _, .arr _ | .bool _, .obj _
  | .num _, .null | .num _, .bool _ | .num _, .str _ | .num _, .arr _ | .num _, .obj _
  | .str _, .null | .str _, .bool _ | .str _, .num _ | .str _, .arr _ | .str _, .obj _
  | .arr _, .null | .arr _, .bool _ | .arr _, .num _ | .arr _, .str _ | .arr _, .obj _
  | .obj _, .null | .obj _, .bool _ | .obj _, .num _ | .obj _, .str _ | .obj _, .arr _ =>
    isFalse (fun e => nomatch e)

def decEqItems : (a b : List Json) → Decidable (a = b)
  | [], [] => isTrue rfl
  | [], _ :: _ | _ :: _, [] => isFalse (fun e => nomatch e)
  | a :: as, b :: bs =>
    match decEq a b, decEqItems as bs with
    | isTrue h, isTrue h' => isTrue (h ▸ h' ▸ rfl)
    | isFalse h, _ => isFalse (fun e => h (by injection e))
    | _, isFalse h => isFalse (fun e => h (by injection e))

def decEqMembers : (a b : List (String × Json)) → Decidable (a = b)
  | [], [] => isTrue rfl
  | [], _ :: _ | _ :: _, [] => isFalse (fun e => nomatch e)
  | (k, a) :: as, (k', b) :: bs =>
    if hk : k = k' then
      match decEq a b, decEqMembers as bs with
      | isTrue h, isTrue h' => isTrue (hk ▸ h ▸ h' ▸ rfl)
      | isFalse h, _ => isFalse (fun e => h (by injection e with e; injection e))
      | _, isFalse h => isFalse (fun e => h (by injection e))
    else isFalse (fun e => hk (by injection e with e; injection e))

end

instance : DecidableEq Json := decEq

/-! ## members -/

/-- The value under a key. -/
def lookup (key : String) : List (String × Json) → Option Json
  | [] => none
  | (k, v) :: rest => if k = key then some v else lookup key rest

/-- A member put at its place among members in ascending order. -/
def insert (key : String) (value : Json) : List (String × Json) → List (String × Json)
  | [] => [(key, value)]
  | (k, v) :: rest =>
    if key < k then (key, value) :: (k, v) :: rest
    else if key = k then (key, value) :: rest
    else (k, v) :: insert key value rest

def get? (key : String) : Json → Option Json
  | .obj members => lookup key members
  | _ => none

/-- An object of the given members. -/
def record (members : List (String × Json)) : Json :=
  .obj (members.foldl (fun acc m => insert m.1 m.2 acc) [])

@[simp] theorem lookup_nil (key : String) : lookup key [] = none := rfl

@[simp] theorem lookup_cons (key k : String) (v : Json) (rest : List (String × Json)) :
    lookup key ((k, v) :: rest) = if k = key then some v else lookup key rest := rfl

theorem lookup_insert (key k : String) (v : Json) (members : List (String × Json)) :
    lookup key (insert k v members) = if k = key then some v else lookup key members := by
  induction members with
  | nil => rfl
  | cons m rest ih =>
    obtain ⟨k', v'⟩ := m
    by_cases h₁ : k < k'
    · simp [insert, h₁]
    · by_cases h₂ : k = k'
      · subst h₂; simp only [insert, h₁, if_false, if_true, lookup_cons]; split <;> rfl
      · simp only [insert, h₁, h₂, if_false, lookup_cons, ih]
        by_cases hk : k = key
        · subst hk; simp [Ne.symm h₂]
        · simp [hk]

/-! ## readings of one value -/

def asStr? : Json → Option String
  | .str s => some s
  | _ => none

def asBool? : Json → Option Bool
  | .bool b => some b
  | _ => none

def asInt? : Json → Option Int
  | .num (.int n) => some n
  | _ => none

/-- A whole number of `0 … bound - 1`. -/
def asNat? (bound : Nat) : Json → Option Nat
  | .num (.int (.ofNat n)) => if n < bound then some n else none
  | _ => none

def isNull : Json → Bool
  | .null => true
  | _ => false

def nat (n : Nat) : Json := .num (.int n)

def strings (ss : List String) : Json := .arr (ss.map .str)

/-- What may be missing is written `null`. -/
def ofOption (write : α → Json) : Option α → Json
  | none => .null
  | some a => write a

/-! ## key order -/

mutual

/-- Keys ascend strictly in every object of the value. -/
def Ordered : Json → Prop
  | .arr items => OrderedItems items
  | .obj members => (members.map Prod.fst).Pairwise (· < ·) ∧ OrderedMembers members
  | _ => True

def OrderedItems : List Json → Prop
  | [] => True
  | v :: vs => v.Ordered ∧ OrderedItems vs

def OrderedMembers : List (String × Json) → Prop
  | [] => True
  | (_, v) :: ms => v.Ordered ∧ OrderedMembers ms

end

end Json

end JobEngine
