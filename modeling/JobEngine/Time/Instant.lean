import JobEngine.Time.Calendar

/-!
# Instants

An instant is a second since 1970-01-01 00:00 and nanoseconds in it, in the years
-262143 … 262142.  The last second of a minute may be followed by a leap second: it keeps that
second's number and has a billion nanoseconds more.

* `Instant.of?`         an instant from its parts, if they are in range;
* `Instant.addSecs?`    an instant some seconds later or earlier, if the calendar reaches there;
* `Instant.addMillis?`  the same for milliseconds;
* `Instant.micros`      whole microseconds since 2000-01-01, as a database keeps it.
-/

namespace JobEngine

/-- The first second of the calendar. -/
def Calendar.firstSecond : Int := -8334601228800

/-- The last second of the calendar. -/
def Calendar.lastSecond : Int := 8210266876799

/-- An instant. -/
structure Instant where
  secs : Int
  nanos : Nat
  secs_ge : Calendar.firstSecond ≤ secs
  secs_le : secs ≤ Calendar.lastSecond
  nanos_lt : nanos < 2000000000
  leap : 1000000000 ≤ nanos → secs % 60 = 59
deriving DecidableEq

namespace Instant

/-- The parts of an instant that is one. -/
def InRange (secs : Int) (nanos : Nat) : Prop :=
  Calendar.firstSecond ≤ secs ∧ secs ≤ Calendar.lastSecond ∧ nanos < 2000000000 ∧
    (1000000000 ≤ nanos → secs % 60 = 59)

instance (secs : Int) (nanos : Nat) : Decidable (InRange secs nanos) := by
  unfold InRange; infer_instance

def of? (secs : Int) (nanos : Nat) : Option Instant :=
  if h : InRange secs nanos then some ⟨secs, nanos, h.1, h.2.1, h.2.2.1, h.2.2.2⟩ else none

theorem of?_parts (t : Instant) : of? t.secs t.nanos = some t := by
  unfold of?
  rw [dif_pos ⟨t.secs_ge, t.secs_le, t.nanos_lt, t.leap⟩]

theorem of?_eq_some {secs : Int} {nanos : Nat} {t : Instant} (h : of? secs nanos = some t) :
    t.secs = secs ∧ t.nanos = nanos := by
  unfold of? at h
  split at h
  · injection h with h; subst h; exact ⟨rfl, rfl⟩
  · simp at h

/-- The start of 1970. -/
def epoch : Instant :=
  ⟨0, 0, by decide, by decide, by decide, by decide⟩

instance : Inhabited Instant := ⟨epoch⟩

instance : Repr Instant := ⟨fun t _ => repr (t.secs, t.nanos)⟩

/-! ## order -/

/-- Earlier instants come first, a leap second behind the second it follows. -/
def le (a b : Instant) : Prop := a.secs < b.secs ∨ (a.secs = b.secs ∧ a.nanos ≤ b.nanos)

instance : LE Instant := ⟨le⟩
instance : LT Instant := ⟨fun a b => ¬ b ≤ a⟩

instance (a b : Instant) : Decidable (a ≤ b) :=
  inferInstanceAs (Decidable (a.secs < b.secs ∨ (a.secs = b.secs ∧ a.nanos ≤ b.nanos)))

instance (a b : Instant) : Decidable (a < b) := inferInstanceAs (Decidable (¬ b ≤ a))

instance : Max Instant := ⟨fun a b => if a ≤ b then b else a⟩

theorem le_def {a b : Instant} :
    a ≤ b ↔ a.secs < b.secs ∨ (a.secs = b.secs ∧ a.nanos ≤ b.nanos) := Iff.rfl

theorem lt_def {a b : Instant} : a < b ↔ ¬ b ≤ a := Iff.rfl

theorem le_refl (a : Instant) : a ≤ a := Or.inr ⟨rfl, Nat.le_refl _⟩

theorem le_trans {a b c : Instant} (h : a ≤ b) (k : b ≤ c) : a ≤ c := by
  rw [le_def] at *; omega

theorem le_total (a b : Instant) : a ≤ b ∨ b ≤ a := by
  rw [le_def, le_def]; omega

theorem le_antisymm {a b : Instant} (h : a ≤ b) (k : b ≤ a) : a = b := by
  rw [le_def] at h k
  obtain ⟨s, n, _, _, _, _⟩ := a
  obtain ⟨s', n', _, _, _, _⟩ := b
  have hs : s = s' := by simp only at h k; omega
  have hn : n = n' := by simp only at h k; omega
  subst hs; subst hn; rfl

theorem max_def (a b : Instant) : max a b = if a ≤ b then b else a := rfl

theorem le_max_right (a b : Instant) : b ≤ max a b := by
  rw [max_def]; split
  · exact le_refl b
  · exact (le_total a b).resolve_left ‹_›

/-! ## moving along -/

/-- The instant `secs` seconds later, or earlier if negative.  A move out of a leap second starts
from the second before it when it goes on and from the second behind it when it goes back. -/
def addSecs? (t : Instant) (secs : Int) : Option Instant :=
  if t.nanos < 1000000000 ∨ secs = 0 then of? (t.secs + secs) t.nanos
  else if 0 < secs then of? (t.secs + secs) (t.nanos - 1000000000)
  else of? (t.secs + 1 + secs) (t.nanos - 1000000000)

/-- The instant `millis` milliseconds later. -/
def addMillis? (t : Instant) (millis : Nat) : Option Instant :=
  let secs : Int := millis / 1000
  let nanos := millis % 1000 * 1000000
  if 1000000000 ≤ t.nanos ∧ secs = 0 ∧ t.nanos + nanos < 2000000000 then
    of? t.secs (t.nanos + nanos)
  else
    let sum := t.nanos % 1000000000 + nanos
    of? (t.secs + secs + (sum / 1000000000 : Nat)) (sum % 1000000000)

/-- Whole microseconds since 2000-01-01, cut toward it.  A leap second counts as the second
that follows it. -/
def micros (t : Instant) : Int :=
  Int.tdiv ((t.secs - 946684800) * 1000000000 + t.nanos) 1000

/-- The instant of a count of microseconds. -/
def ofMicros? (n : Int) : Option Instant :=
  of? (946684800 + n / 1000000) ((n % 1000000).toNat * 1000)

/-- The instant as a database gives it back. -/
def cut (t : Instant) : Instant := (ofMicros? t.micros).getD t

end Instant

end JobEngine
