/-!
# Hexadecimal digits

* `Text.hexDigit?`    the value of a digit, large or small;
* `Text.hexNumber?`   the number of a run of digits;
* `Text.hexDigits`    the last digits of a number, small letters.
-/

namespace JobEngine.Text

def hexDigit? (c : Char) : Option Nat :=
  if '0' ≤ c ∧ c ≤ '9' then some (c.toNat - 48)
  else if 'a' ≤ c ∧ c ≤ 'f' then some (c.toNat - 87)
  else if 'A' ≤ c ∧ c ≤ 'F' then some (c.toNat - 55)
  else none

/-- The number that digits behind `acc` make. -/
def hexNumber? (acc : Nat) : List Char → Option Nat
  | [] => some acc
  | c :: cs => (hexDigit? c).bind fun d => hexNumber? (16 * acc + d) cs

/-- The `width` last digits of `n`. -/
def hexDigits : Nat → Nat → List Char
  | 0, _ => []
  | width + 1, n => hexDigits width (n / 16) ++ [Nat.digitChar (n % 16)]

theorem hexDigit?_digitChar {d : Nat} (h : d < 16) : hexDigit? (Nat.digitChar d) = some d := by
  have : ∀ d : Fin 16, hexDigit? (Nat.digitChar d) = some d.val := by decide
  exact this ⟨d, h⟩

@[simp] theorem length_hexDigits (width n : Nat) : (hexDigits width n).length = width := by
  induction width generalizing n with
  | zero => rfl
  | succ w ih => simp [hexDigits, ih]

theorem hexNumber?_append (acc : Nat) (cs ds : List Char) :
    hexNumber? acc (cs ++ ds) = (hexNumber? acc cs).bind fun n => hexNumber? n ds := by
  induction cs generalizing acc with
  | nil => rfl
  | cons c cs ih =>
    simp only [List.cons_append, hexNumber?]
    cases hexDigit? c with
    | none => rfl
    | some d => simp [ih]

theorem hexNumber?_hexDigits (acc width n : Nat) (h : n < Nat.pow 16 width) :
    hexNumber? acc (hexDigits width n) = some (acc * Nat.pow 16 width + n) := by
  induction width generalizing n with
  | zero =>
    have h : n < 1 := h
    have : n = 0 := by omega
    subst this
    exact congrArg some (Nat.mul_one acc).symm
  | succ w ih =>
    have hp : Nat.pow 16 (w + 1) = 16 * Nat.pow 16 w := Nat.mul_comm _ _
    rw [hp] at h ⊢
    have hn : n / 16 < Nat.pow 16 w := by omega
    rw [hexDigits, hexNumber?_append, ih _ hn]
    have hd : hexDigit? (Nat.digitChar (n % 16)) = some (n % 16) :=
      hexDigit?_digitChar (Nat.mod_lt _ (by decide))
    simp only [Option.bind_some, hexNumber?, hd, Option.some.injEq]
    rw [← Nat.mul_assoc, Nat.mul_comm acc 16, Nat.mul_assoc]
    omega

end JobEngine.Text
