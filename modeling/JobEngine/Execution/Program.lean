/-!
# Programs with effects

A program is done, asks its surroundings something and goes on with the answer, or breaks down.
Each question is a point where it may wait or be abandoned.

* `Effects`        the questions and the type of each one's answer;
* `Program`        programs, with `Program.bind` for "and then".
-/

namespace JobEngine

/-- What programs may ask. -/
structure Effects where
  Call : Type
  Answer : Call → Type

inductive Program (E : Effects) (α : Type) where
  | done (a : α)
  | call (c : E.Call) (k : E.Answer c → Program E α)
  /-- Nothing follows, and there is no result. -/
  | crash

namespace Program

variable {E : Effects} {α β γ : Type}

def bind : Program E α → (α → Program E β) → Program E β
  | done a, f => f a
  | call c k, f => call c fun a => (k a).bind f
  | crash, _ => crash

instance : Monad (Program E) where
  pure := done
  bind := bind

/-- One question. -/
def ask (c : E.Call) : Program E (E.Answer c) := call c done

/-- The result of a program when every question has a fixed answer. -/
def answered (answer : (c : E.Call) → E.Answer c) : Program E α → Option α
  | done a => some a
  | call c k => (k (answer c)).answered answer
  | crash => none

@[simp] theorem bind_done (a : α) (f : α → Program E β) : (done a).bind f = f a := rfl

@[simp] theorem bind_call (c : E.Call) (k : E.Answer c → Program E α) (f : α → Program E β) :
    (call c k).bind f = call c fun a => (k a).bind f := rfl

@[simp] theorem bind_crash (f : α → Program E β) : (crash : Program E α).bind f = crash := rfl

@[simp] theorem pure_eq (a : α) : (pure a : Program E α) = done a := rfl

@[simp] theorem bind_eq (p : Program E α) (f : α → Program E β) : p >>= f = p.bind f := rfl

theorem bind_done_right (p : Program E α) : p.bind done = p := by
  induction p with
  | done => rfl
  | call c k ih => simp only [bind_call]; congr; funext a; exact ih a
  | crash => rfl

theorem bind_assoc (p : Program E α) (f : α → Program E β) (g : β → Program E γ) :
    (p.bind f).bind g = p.bind fun a => (f a).bind g := by
  induction p with
  | done => rfl
  | call c k ih => simp only [bind_call]; congr; funext a; exact ih a
  | crash => rfl

instance : LawfulMonad (Program E) :=
  LawfulMonad.mk' _ (fun p => bind_done_right p) (fun _ _ => rfl) (fun p f g => bind_assoc p f g)

end Program

end JobEngine
