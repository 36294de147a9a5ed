import JobEngine.Event.Topic
import JobEngine.Text.Quoted

/-!
# The notifier bus

A bus is a list of notifiers.  Publishing calls those that want the topic, in the order they were
registered, and stops behind the first that fails.

* `Notifier`      an observer: the topics it wants and how it answers;
* `Bus.register`  more notifiers;
* `Bus.publish`   who is called, and what the publisher gets;
* `Journal`       who received what, from which each recorder's messages are read.

Notifiers keep nothing themselves, so a copy of a bus shares them with the bus it was made from.
-/

namespace JobEngine

/-- A notifier failed on a message. -/
structure NotifyError where
  notifier : String
  topic : Topic
  text : String
deriving DecidableEq, Repr

def NotifyError.message (e : NotifyError) : String :=
  "notifier \x60" ++ e.notifier ++ "\x60 failed on " ++ e.topic.text ++ ": " ++ e.text

/-- An observer of messages; `key` tells observers of one name apart. -/
structure Notifier (μ : Type) where
  key : Nat
  name : String
  topics : List Topic
  /-- How it takes a message. -/
  answer : μ → Except NotifyError Unit := fun _ => .ok ()

namespace Notifier

def cares (n : Notifier μ) (t : Topic) : Bool := n.topics.contains t

/-- A notifier that fails on some topics, always with one text. -/
def failing (key : Nat) (name : String) (topics failsOn : List Topic) (text : String)
    (topic : μ → Topic) : Notifier μ where
  key := key
  name := name
  topics := topics
  answer m := if failsOn.contains (topic m) then .error ⟨name, topic m, text⟩ else .ok ()

end Notifier

/-- Notifiers in the order of registration. -/
abbrev Bus (μ : Type) := List (Notifier μ)

namespace Bus

/-- The bus with more notifiers, behind those that it has. -/
def register (bus : Bus μ) (ns : List (Notifier μ)) : Bus μ := bus ++ ns

/-- What a publication does: the notifiers called, and how many were served or which failed. -/
structure Delivery (μ : Type) where
  called : List (Notifier μ)
  outcome : Except NotifyError Nat

/-- Call notifiers in turn, `served` of them having been served. -/
def deliver (m : μ) (served : Nat) : List (Notifier μ) → Delivery μ
  | [] => ⟨[], .ok served⟩
  | n :: rest =>
    match n.answer m with
    | .error e => ⟨[n], .error e⟩
    | .ok () =>
      let d := deliver m (served + 1) rest
      ⟨n :: d.called, d.outcome⟩

/-- Call every notifier that wants the topic `t` of `m`, up to the first that fails. -/
def publish (bus : Bus μ) (t : Topic) (m : μ) : Delivery μ :=
  deliver m 0 (bus.filter (·.cares t))

/-- The names in order, as a quoted list. -/
def display (bus : Bus μ) : String := Text.quotedList (bus.map Notifier.name)

end Bus

/-- Who received which message, oldest first. -/
abbrev Journal (μ : Type) := List (Nat × μ)

namespace Journal

/-- The journal behind a publication of `m`. -/
def enter (j : Journal μ) (d : Bus.Delivery μ) (m : μ) : Journal μ :=
  j ++ d.called.map fun n => (n.key, m)

/-- The messages that one observer received. -/
def received (j : Journal μ) (key : Nat) : List μ :=
  (j.filter (·.1 == key)).map Prod.snd

end Journal

end JobEngine
