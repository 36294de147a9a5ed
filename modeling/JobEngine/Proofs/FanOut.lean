import JobEngine.Event.Bus
import Mathlib.Data.List.Induction

/-!
# Fan-out

Buses are filled, copied and published on.  A copy starts with the notifiers of its original, the
very same ones, and goes its own way from there.

* `Bus.deliver_cases`     whom a publication calls, and what it returns;
* `Bus.Act`, `Bus.Fleet`  what is done with buses, and what comes of it;
* `Bus.registered`        the notifiers that were registered on a bus, or on what it is a copy of;
* `Fleet.bus_after`       these are the ones that it has;
* `Bus.Reaches`           a message gets as far as a notifier;
* `messages_fan_out_in_order`   every publication of a run, and what each recorder has in the end.

The answer of a notifier may depend on all that its message says.
-/

namespace JobEngine

variable {μ : Type}

/-- The notifier takes every message. -/
def Notifier.Records (n : Notifier μ) : Prop := ∀ m, n.answer m = .ok ()

namespace Bus

/-! ## one publication -/

theorem deliver_cases (m : μ) (served : Nat) (ns : List (Notifier μ)) :
    (∀ n ∈ ns, n.answer m = .ok ()) ∧ deliver m served ns = ⟨ns, .ok (served + ns.length)⟩ ∨
    ∃ before n rest e, ns = before ++ n :: rest ∧ (∀ p ∈ before, p.answer m = .ok ()) ∧
      n.answer m = .error e ∧ deliver m served ns = ⟨before ++ [n], .error e⟩ := by
  induction ns generalizing served with
  | nil => exact Or.inl ⟨nofun, rfl⟩
  | cons n ns ih =>
    cases hn : n.answer m with
    | error e => exact Or.inr ⟨[], n, ns, e, rfl, nofun, hn, by rw [deliver, hn]; rfl⟩
    | ok _ =>
      have hnext : deliver m served (n :: ns) =
          ⟨n :: (deliver m (served + 1) ns).called, (deliver m (served + 1) ns).outcome⟩ := by
        rw [deliver, hn]
      rw [hnext]
      rcases ih (served + 1) with ⟨hall, hd⟩ | ⟨before, p, rest, e, rfl, hall, hp, hd⟩
      · refine Or.inl ⟨List.forall_mem_cons.mpr ⟨hn, hall⟩, ?_⟩
        rw [hd, List.length_cons, Nat.add_right_comm, Nat.add_assoc]
      · refine Or.inr ⟨n :: before, p, rest, e, rfl, List.forall_mem_cons.mpr ⟨hn, hall⟩, hp, ?_⟩
        rw [hd]
        rfl

/-- The notifiers of a bus that want a topic. -/
def wanting (t : Topic) (bus : Bus μ) : List (Notifier μ) := bus.filter (·.cares t)

/-- The notifiers of one key. -/
def ofKey (key : Nat) (ns : List (Notifier μ)) : List (Notifier μ) := ns.filter (·.key == key)

/-- A message gets as far as a notifier: it is there and wants it, and of those before it none that
wants it fails. -/
def Reaches (t : Topic) (m : μ) (r : Notifier μ) (bus : Bus μ) : Prop :=
  (∃ n ∈ bus, n.key = r.key) ∧ r.cares t = true ∧
    ∀ n ∈ bus.takeWhile (·.key != r.key), n.cares t = true → n.answer m = .ok ()

instance (t : Topic) (m : μ) (r : Notifier μ) (bus : Bus μ) : Decidable (Reaches t m r bus) :=
  inferInstanceAs (Decidable (_ ∧ _ ∧ _))

section
variable {t : Topic} {m : μ} {r n : Notifier μ} {ns : List (Notifier μ)} {bus : Bus μ} {key : Nat}

theorem wanting_cons_of_cares (h : n.cares t = true) :
    wanting t (n :: bus) = n :: wanting t bus := List.filter_cons_of_pos h

theorem wanting_cons_of_not (h : ¬ n.cares t = true) :
    wanting t (n :: bus) = wanting t bus := List.filter_cons_of_neg h

theorem ofKey_cons_eq (h : n.key = key) : ofKey key (n :: ns) = n :: ofKey key ns :=
  List.filter_cons_of_pos (beq_iff_eq.mpr h)

theorem ofKey_cons_ne (h : n.key ≠ key) : ofKey key (n :: ns) = ofKey key ns :=
  List.filter_cons_of_neg (mt beq_iff_eq.mp h)

theorem deliver_ok (h : n.answer m = .ok ()) (served : Nat) (ns : List (Notifier μ)) :
    (deliver m served (n :: ns)).called = n :: (deliver m (served + 1) ns).called := by
  rw [deliver, h]

theorem deliver_error {e : NotifyError} (h : n.answer m = .error e) (served : Nat)
    (ns : List (Notifier μ)) : (deliver m served (n :: ns)).called = [n] := by
  rw [deliver, h]

theorem called_sublist (m : μ) (served : Nat) (ns : List (Notifier μ)) :
    (deliver m served ns).called.Sublist ns := by
  rcases deliver_cases m served ns with ⟨-, h⟩ | ⟨before, n, rest, e, rfl, -, -, h⟩
  · exact h.symm ▸ List.Sublist.refl ns
  · rw [h]
    exact (List.singleton_sublist.mpr List.mem_cons_self).append_left before

theorem ofKey_called_eq_nil (h : ofKey key bus = []) (served : Nat) :
    ofKey key (deliver m served (wanting t bus)).called = [] := by
  have hsub := (called_sublist m served (wanting t bus)).trans List.filter_sublist
  exact List.sublist_nil.mp (h ▸ hsub.filter _)

theorem not_reaches_of_ofKey (h : ofKey r.key bus = []) : ¬ Reaches t m r bus := by
  rintro ⟨⟨n, hn, hkey⟩, -⟩
  exact List.filter_eq_nil_iff.mp h n hn (beq_iff_eq.mpr hkey)

theorem reaches_cons_ne (hne : n.key ≠ r.key) : Reaches t m r (n :: bus) ↔
    (n.cares t = true → n.answer m = .ok ()) ∧ Reaches t m r bus := by
  have htake : (n :: bus).takeWhile (·.key != r.key) = n :: bus.takeWhile (·.key != r.key) :=
    List.takeWhile_cons_of_pos (bne_iff_ne.mpr hne)
  have hthere : (∃ p ∈ n :: bus, p.key = r.key) ↔ ∃ p ∈ bus, p.key = r.key := by simp [hne]
  unfold Reaches
  rw [htake, List.forall_mem_cons, hthere]
  exact ⟨fun ⟨h, hc, hn, hall⟩ => ⟨hn, h, hc, hall⟩, fun ⟨hn, h, hc, hall⟩ => ⟨h, hc, hn, hall⟩⟩

theorem reaches_cons_self : Reaches t m r (r :: bus) ↔ r.cares t = true := by
  have htake : (r :: bus).takeWhile (·.key != r.key) = [] :=
    List.takeWhile_cons_of_neg (by simp)
  unfold Reaches
  rw [htake]
  exact ⟨fun h => h.2.1, fun h => ⟨⟨r, List.mem_cons_self, rfl⟩, h, nofun⟩⟩

/-- A notifier that is on a bus at most once is the only one of its key there. -/
theorem eq_of_ofKey_cons (hkey : n.key = r.key) (hone : (ofKey r.key (n :: bus)).Sublist [r]) :
    n = r ∧ ofKey r.key bus = [] := by
  rw [ofKey_cons_eq hkey] at hone
  have hrest : (ofKey r.key bus).length ≤ 0 := Nat.le_of_succ_le_succ hone.length_le
  exact ⟨List.mem_singleton.mp (hone.subset List.mem_cons_self),
    List.eq_nil_of_length_eq_zero (Nat.le_zero.mp hrest)⟩

/-- A notifier that records, and is on a bus at most once, is called exactly if the message
reaches it. -/
theorem ofKey_called (hr : r.Records) (hone : (ofKey r.key bus).Sublist [r]) (served : Nat) :
    ofKey r.key (deliver m served (wanting t bus)).called =
      if Reaches t m r bus then [r] else [] := by
  induction bus generalizing served with
  | nil => rw [ofKey_called_eq_nil rfl, if_neg (not_reaches_of_ofKey rfl)]
  | cons n bus ih =>
    by_cases hkey : n.key = r.key
    · obtain ⟨rfl, hrest⟩ := eq_of_ofKey_cons hkey hone
      by_cases hcares : n.cares t = true
      · rw [wanting_cons_of_cares hcares, deliver_ok (hr m), ofKey_cons_eq rfl,
          ofKey_called_eq_nil hrest, if_pos (reaches_cons_self.mpr hcares)]
      · rw [wanting_cons_of_not hcares, ofKey_called_eq_nil hrest,
          if_neg (mt reaches_cons_self.mp hcares)]
    · rw [ofKey_cons_ne hkey] at hone
      simp only [reaches_cons_ne hkey]
      by_cases hcares : n.cares t = true
      · rw [wanting_cons_of_cares hcares]
        cases hn : n.answer m with
        | ok _ => simp [deliver_ok hn, ofKey_cons_ne hkey, ih hone]
        | error e =>
          rw [deliver_error hn, ofKey_cons_ne hkey]
          simp [ofKey, hcares]
      · simp [wanting_cons_of_not hcares, ih hone, hcares]

end

/-! ## runs -/

/-- What is done with buses.  Each has a number; a copy gets the number of a bus that is given up
for it. -/
inductive Act (μ : Type)
  | register (bus : Nat) (ns : List (Notifier μ))
  | copy (source target : Nat)
  | publish (bus : Nat) (m : μ)

/-- Buses, and who has received what. -/
structure Fleet (μ : Type) where
  bus : Nat → Bus μ := fun _ => []
  journal : Journal μ := []

variable (topic : μ → Topic)

namespace Fleet

/-- The publication of a message on a bus. -/
def publish (f : Fleet μ) (b : Nat) (m : μ) : Delivery μ := (f.bus b).publish (topic m) m

def act (f : Fleet μ) : Act μ → Fleet μ
  | .register b ns => { f with bus := Function.update f.bus b ((f.bus b).register ns) }
  | .copy s c => { f with bus := Function.update f.bus c (f.bus s) }
  | .publish b m => { f with journal := f.journal.enter (f.publish topic b m) m }

/-- The buses behind a row of acts; at first they are empty. -/
def after (acts : List (Act μ)) : Fleet μ := acts.foldl (act topic) {}

end Fleet

/-- The bus that is, behind the acts, the bus `b` or what it was copied from. -/
def origin : List (Act μ) → Nat → Nat
  | [], b => b
  | .copy s c :: acts, b => if origin acts b = c then s else origin acts b
  | _ :: acts, b => origin acts b

/-- The notifiers that were registered on a bus, or on its original before it was copied, in the
order of registration. -/
def registered : List (Act μ) → Nat → List (Notifier μ)
  | [], _ => []
  | .register c ns :: acts, b =>
    if origin acts b = c then ns ++ registered acts b else registered acts b
  | _ :: acts, b => registered acts b

/-- All notifiers that were registered anywhere. -/
def registrations (acts : List (Act μ)) : List (Notifier μ) :=
  acts.flatMap fun
    | .register _ ns => ns
    | _ => []

/-- The messages that were published, oldest first, each with the notifiers that had been
registered on its bus by then; `past` is what was done before. -/
def publications (past : List (Act μ)) : List (Act μ) → List (Bus μ × μ)
  | [] => []
  | .publish b m :: acts =>
    (registered past b, m) :: publications (past ++ [.publish b m]) acts
  | a :: acts => publications (past ++ [a]) acts

/-! ## what the buses have -/

variable {topic} {acts past : List (Act μ)} {a : Act μ} {b : Nat} {r : Notifier μ}

theorem bus_foldl (f : Fleet μ) (acts : List (Act μ)) (b : Nat) :
    (acts.foldl (Fleet.act topic) f).bus b = f.bus (origin acts b) ++ registered acts b := by
  induction acts generalizing f with
  | nil => exact (List.append_nil _).symm
  | cons a acts ih =>
    rw [List.foldl_cons, ih]
    cases a with
    | register c ns =>
      show Function.update f.bus c (f.bus c ++ ns) (origin acts b) ++ registered acts b =
        f.bus (origin acts b) ++ if origin acts b = c then ns ++ registered acts b else _
      by_cases hc : origin acts b = c
      · rw [if_pos hc, hc, Function.update_self, List.append_assoc]
      · rw [if_neg hc, Function.update_of_ne hc]
    | copy s c =>
      show Function.update f.bus c (f.bus s) (origin acts b) ++ registered acts b =
        f.bus (if origin acts b = c then s else origin acts b) ++ registered acts b
      by_cases hc : origin acts b = c
      · rw [if_pos hc, hc, Function.update_self]
      · rw [if_neg hc, Function.update_of_ne hc]
    | publish c m => rfl

/-- A bus has what was registered on it or on what it is a copy of. -/
theorem bus_after (topic : μ → Topic) (acts : List (Act μ)) (b : Nat) :
    (Fleet.after topic acts).bus b = registered acts b := by
  unfold Fleet.after
  rw [bus_foldl]
  rfl

theorem registrations_cons (a : Act μ) (acts : List (Act μ)) :
    registrations (a :: acts) = registrations [a] ++ registrations acts := by
  unfold registrations
  rw [List.flatMap_cons, List.flatMap_cons, List.flatMap_nil, List.append_nil]

theorem registered_sublist (acts : List (Act μ)) (b : Nat) :
    (registered acts b).Sublist (registrations acts) := by
  induction acts with
  | nil => exact List.Sublist.refl _
  | cons a acts ih =>
    rw [registrations_cons]
    cases a with
    | register c ns =>
      rw [registered]
      split
      · exact (ih.append_left ns).trans (by simp [registrations])
      · exact ih.trans (List.sublist_append_right ..)
    | copy | publish => exact ih.trans (List.sublist_append_right ..)

/-! ## what the recorders have -/

theorem received_enter (j : Journal μ) (d : Delivery μ) (m : μ) (key : Nat) :
    (j.enter d m).received key = j.received key ++ (ofKey key d.called).map fun _ => m := by
  unfold Journal.enter Journal.received ofKey
  rw [List.filter_append, List.map_append, List.filter_map, List.map_map]
  rfl

/-- The messages among some publications that reach a notifier. -/
def reaching (topic : μ → Topic) (r : Notifier μ) (ps : List (Bus μ × μ)) : List μ :=
  (ps.filter fun p => Reaches (topic p.2) p.2 r p.1).map Prod.snd

theorem reaching_cons (p : Bus μ × μ) (ps : List (Bus μ × μ)) :
    reaching topic r (p :: ps) =
      (if Reaches (topic p.2) p.2 r p.1 then [p.2] else []) ++ reaching topic r ps := by
  unfold reaching
  rw [List.filter_cons]
  simp only [decide_eq_true_eq]
  split <;> rfl

theorem after_concat (past : List (Act μ)) (a : Act μ) :
    Fleet.after topic (past ++ [a]) = (Fleet.after topic past).act topic a := by
  unfold Fleet.after
  rw [List.foldl_append]
  rfl

theorem received_publish (hr : r.Records)
    (hone : (ofKey r.key (registrations past)).Sublist [r]) (b : Nat) (m : μ) :
    (Fleet.after topic (past ++ [.publish b m])).journal.received r.key =
      (Fleet.after topic past).journal.received r.key ++
        if Reaches (topic m) m r (registered past b) then [m] else [] := by
  have hone' : (ofKey r.key (registered past b)).Sublist [r] :=
    ((registered_sublist past b).filter _).trans hone
  have hcalled : ofKey r.key ((Fleet.after topic past).publish topic b m).called =
      if Reaches (topic m) m r (registered past b) then [r] else [] := by
    unfold Fleet.publish
    rw [bus_after]
    exact ofKey_called hr hone' 0
  rw [after_concat]
  show ((Fleet.after topic past).journal.enter _ m).received r.key = _
  rw [received_enter, hcalled]
  split <;> rfl

theorem received_after (topic : μ → Topic) (past acts : List (Act μ)) (hr : r.Records)
    (hone : (ofKey r.key (registrations (past ++ acts))).Sublist [r]) :
    (Fleet.after topic (past ++ acts)).journal.received r.key =
      (Fleet.after topic past).journal.received r.key ++
        reaching topic r (publications past acts) := by
  induction acts generalizing past with
  | nil => rw [List.append_nil]; exact (List.append_nil _).symm
  | cons a acts ih =>
    rw [List.append_cons] at hone ⊢
    rw [ih _ hone]
    cases a with
    | publish b m =>
      have hpast : (ofKey r.key (registrations past)).Sublist [r] := by
        refine List.Sublist.trans ?_ hone
        unfold registrations
        rw [List.append_assoc, List.flatMap_append]
        exact (List.sublist_append_left ..).filter _
      rw [received_publish hr hpast, publications, reaching_cons, List.append_assoc]
    | register | copy => rw [after_concat]; rfl

end Bus

open Bus

/-- **Messages fan out in order.**  Whatever was done with some buses before, a message published
on one of them goes to the notifiers that were registered on it, or on its original before it was
copied, and want its topic: in the order of registration, and up to the first that fails, whose
error is returned; if none fails, their number is.  A notifier that records, and was registered
once, has in the end just the messages that reached it, in the order of publication. -/
theorem messages_fan_out_in_order (topic : μ → Topic) (acts : List (Act μ)) :
    (∀ b m,
      let ns := wanting (topic m) (registered acts b)
      let d := (Fleet.after topic acts).publish topic b m
      (∀ n ∈ ns, n.answer m = .ok ()) ∧ d.called = ns ∧ d.outcome = .ok ns.length ∨
      ∃ before n rest e, ns = before ++ n :: rest ∧ (∀ p ∈ before, p.answer m = .ok ()) ∧
        n.answer m = .error e ∧ d.called = before ++ [n] ∧ d.outcome = .error e) ∧
    ∀ r : Notifier μ, r.Records → ofKey r.key (registrations acts) = [r] →
      (Fleet.after topic acts).journal.received r.key =
        ((publications [] acts).filter fun p => Reaches (topic p.2) p.2 r p.1).map Prod.snd := by
  refine ⟨fun b m => ?_, fun r hr hone => ?_⟩
  · have hd : (Fleet.after topic acts).publish topic b m =
        deliver m 0 (wanting (topic m) (registered acts b)) := by
      rw [← bus_after topic]
      rfl
    dsimp only
    rw [hd]
    rcases deliver_cases m 0 (wanting (topic m) (registered acts b)) with
      ⟨hall, h⟩ | ⟨before, n, rest, e, hns, hall, hn, h⟩
    · rw [h]
      exact Or.inl ⟨hall, rfl, congrArg Except.ok (Nat.zero_add _)⟩
    · rw [h]
      exact Or.inr ⟨before, n, rest, e, hns, hall, hn, rfl, rfl⟩
  · exact received_after topic [] acts hr (hone ▸ List.Sublist.refl _)

/-- It fails on one topic. -/
def Bus.mailer : Notifier (Topic × Nat) :=
  .failing 0 "mail" Topic.all [.failed] "mailbox full" Prod.fst

def Bus.tape : Notifier (Topic × Nat) := { key := 1, name := "tape", topics := Topic.all }

/-- A bus, a copy of it that goes its own way, and a copy of the copy. -/
def Bus.twoBuses : List (Act (Topic × Nat)) :=
  [.register 0 [mailer], .copy 0 1, .register 1 [tape], .copy 1 2, .publish 0 (.started, 1),
    .publish 1 (.failed, 2), .publish 1 (.finished, 3), .publish 2 (.started, 4)]

theorem tape_misses_a_failure : tape.Records ∧ ofKey tape.key (registrations twoBuses) = [tape] ∧
    (Fleet.after Prod.fst twoBuses).journal.received tape.key =
      [(.finished, 3), (.started, 4)] := by
  have hrecords : tape.Records := fun _ => rfl
  have hone : ofKey tape.key (registrations twoBuses) = [tape] := rfl
  exact ⟨hrecords, hone, (messages_fan_out_in_order Prod.fst twoBuses).2 tape hrecords hone⟩

end JobEngine
