import JobEngine.Settings.Basic
import Mathlib.Data.List.Induction

/-!
# What variables say of a setting

The name of a variable is a path.  A value that is set at a path stays until something is set there,
above it or below it; what is set at a path that parts from it at some name leaves it alone.

* `Tree.at?`, `Tree.Apart`     what stands at a path of names, and paths that part;
* `Tree.leaf_at?_set`          a value behind one variable;
* `Tree.Settles`, `Tree.leaf_at?_ofVars`   a value behind all variables;
* `Tree.field_eq_some`, `Tree.long?_eq_some`   a counting setting: the value it is given, or its
  default;
* `Scalar.ofText_toString`     the text of a number is that number.
-/

namespace JobEngine

namespace Tree

variable {t u : Tree} {v w : Scalar} {p : List Part} {q : List String} {name k : String}
  {cs : List (String × Tree)} {start value : String} {vars : List (String × String)}

/-! ## places -/

def children : Tree → List (String × Tree)
  | branch cs => cs
  | _ => []

/-- What stands at a path of names. -/
def at? : List String → Tree → Option Tree
  | [], t => some t
  | name :: rest, t => (child? name t.children).bind (at? rest)

theorem at?_append {q' : List String} : t.at? (q ++ q') = (t.at? q).bind (at? q') := by
  induction q generalizing t with
  | nil => rfl
  | cons b q ih =>
    show (child? b t.children).bind (at? (q ++ q')) = ((child? b t.children).bind (at? q)).bind _
    cases child? b t.children with
    | none => rfl
    | some u => exact ih

theorem child?_setChild :
    child? k (setChild name t cs) = if name = k then some t else child? k cs := by
  induction cs with
  | nil => rfl
  | cons c cs ih =>
    obtain ⟨l, u⟩ := c
    by_cases hl : l = name
    · subst hl
      simp only [setChild, if_true, child?]
      split <;> rfl
    · simp only [setChild, hl, if_false, child?, ih]
      by_cases hk : l = k
      · subst hk
        simp [Ne.symm hl]
      · simp [hk]

theorem set_key : set v (.key name :: p) t =
    branch (setChild name (set v p ((child? name t.children).getD (branch []))) t.children) := by
  cases t <;> rfl

theorem at?_nothing : (branch []).at? q ≠ some (leaf w) := by
  cases q <;> exact nofun

/-- Where there is no child yet, there is no value either. -/
theorem leaf_at?_getD {o : Option Tree} :
    (o.getD (branch [])).at? q = some (leaf w) ↔ o.bind (at? q) = some (leaf w) := by
  cases o with
  | none => exact iff_of_false at?_nothing nofun
  | some u => rfl

/-- The paths part at two different names. -/
def Apart : List Part → List String → Prop
  | .key a :: p, b :: q => a ≠ b ∨ Apart p q
  | _, _ => False

theorem leaf_at?_set : (set v p t).at? q = some (leaf w) ↔
    (p = q.map .key ∧ w = v) ∨ (Apart p q ∧ t.at? q = some (leaf w)) := by
  -- induction on the path that is set: the two paths are followed until they part or one ends
  induction p generalizing q t with
  | nil =>
    cases q with
    | nil =>
      show some (leaf v) = some (leaf w) ↔ _
      simp [Apart, eq_comm]
    | cons b q => exact iff_of_false nofun (by simp [Apart])
  | cons part p ih =>
    cases part with
    | place => cases q <;> exact iff_of_false nofun (by simp [Apart])
    | key a =>
      rw [set_key]
      cases q with
      | nil => exact iff_of_false nofun (by simp [Apart])
      | cons b q =>
        show (child? b (setChild a _ t.children)).bind (at? q) = _ ↔ _
        rw [child?_setChild]
        by_cases hab : a = b
        · subst hab
          rw [if_pos rfl, Option.bind_some, ih, leaf_at?_getD]
          simp [Apart, at?]
        · rw [if_neg hab]
          simp [Apart, at?, hab]

/-! ## all variables -/

/-- The path of a variable, if it is of the family. -/
def pathOf? (start name : String) : Option (List Part) :=
  (below? start.toList (smallName name)).map fun rest => path (pointed rest)

/-- The last variable to concern a path names it and has the value. -/
def Settles (start : String) (q : List String) (vars : List (String × String)) (value : String) :
    Prop :=
  ∃ before name after, vars = before ++ (name, value) :: after ∧
    pathOf? start name = some (q.map .key) ∧
      ∀ x ∈ after, ∀ p, pathOf? start x.1 = some p → Apart p q

theorem ofVars_concat (x : String × String) : ofVars start (vars ++ [x]) =
    (pathOf? start x.1).elim (ofVars start vars)
      fun p => set (.ofText x.2) p (ofVars start vars) := by
  obtain ⟨name, value⟩ := x
  unfold ofVars pathOf?
  rw [List.foldl_append, List.foldl_cons, List.foldl_nil]
  dsimp only
  cases below? start.toList (smallName name) <;> rfl

theorem not_settles_nil : ¬ Settles start q [] value := by
  rintro ⟨before, name, after, h, -⟩
  simp at h

theorem settles_concat {x : String × String} : Settles start q (vars ++ [x]) value ↔
    (pathOf? start x.1 = some (q.map .key) ∧ x.2 = value) ∨
      ((∀ p, pathOf? start x.1 = some p → Apart p q) ∧ Settles start q vars value) := by
  constructor
  · rintro ⟨before, name, after, h, hname, hafter⟩
    cases after using List.reverseRecOn with
    | nil =>
      obtain ⟨rfl, hx⟩ := List.append_inj' h rfl
      obtain rfl := (List.cons.inj hx).1
      exact .inl ⟨hname, rfl⟩
    | append_singleton after y =>
      rw [← List.cons_append, ← List.append_assoc] at h
      obtain ⟨rfl, hx⟩ := List.append_inj' h rfl
      obtain rfl := (List.cons.inj hx).1
      exact .inr ⟨hafter x (by simp), before, name, after, rfl, hname,
        fun z hz => hafter z (List.mem_append_left _ hz)⟩
  · rintro (⟨hx, rfl⟩ | ⟨hx, before, name, after, rfl, hname, hafter⟩)
    · exact ⟨vars, x.1, [], rfl, hx, nofun⟩
    · refine ⟨before, name, after ++ [x], by simp, hname, fun z hz => ?_⟩
      rcases List.mem_append.mp hz with hz | hz
      · exact hafter z hz
      · exact List.mem_singleton.mp hz ▸ hx

/-- There is a value at a path exactly if the last variable to concern the path gives it. -/
theorem leaf_at?_ofVars : (ofVars start vars).at? q = some (leaf w) ↔
    ∃ value, Settles start q vars value ∧ w = .ofText value := by
  induction vars using List.reverseRecOn with
  | nil => exact iff_of_false at?_nothing fun ⟨_, h, _⟩ => not_settles_nil h
  | append_singleton vars x ih =>
    rw [ofVars_concat]
    simp only [settles_concat]
    cases hx : pathOf? start x.1 with
    | none => simp [ih]
    | some p =>
      rw [Option.elim_some, leaf_at?_set, ih]
      simp only [Option.some.injEq, forall_eq']
      constructor
      · rintro (⟨hp, hw⟩ | ⟨hp, value, hv, hw⟩)
        · exact ⟨x.2, .inl ⟨hp, rfl⟩, hw⟩
        · exact ⟨value, .inr ⟨hp, hv⟩, hw⟩
      · rintro ⟨value, ⟨hp, rfl⟩ | ⟨hp, hv⟩, hw⟩
        · exact .inl ⟨hp, hw⟩
        · exact .inr ⟨hp, value, hv, hw⟩

/-! ## fields -/

theorem field_eq_some {α : Type} {read : Tree → Option α} {d a : α}
    (h : t.field name read d = some a) :
    (t.at? [name] = none ∧ a = d) ∨ ∃ u, t.at? [name] = some u ∧ read u = some a := by
  cases t with
  | branch cs =>
    unfold field at h
    show ((child? name cs).bind some = none ∧ _) ∨ ∃ u, (child? name cs).bind some = some u ∧ _
    cases hc : child? name cs with
    | none =>
      simp only [hc] at h
      exact .inl ⟨rfl, (Option.some.inj h).symm⟩
    | some u =>
      simp only [hc] at h
      exact .inr ⟨u, rfl, h⟩
  | leaf => exact nomatch h
  | list => exact nomatch h

theorem required_eq_some {α : Type} {read : Tree → Option α} {a : α}
    (h : t.required name read = some a) : ∃ u, t.at? [name] = some u ∧ read u = some a := by
  cases t with
  | branch cs =>
    obtain ⟨u, hu, ha⟩ := Option.bind_eq_some_iff.mp h
    exact ⟨u, by simp [at?, children, hu], ha⟩
  | leaf => exact nomatch h
  | list => exact nomatch h

/-- Only a value is a number. -/
theorem long?_eq_some {n : UInt64} (h : t.long? = some n) :
    ∃ v, t = leaf v ∧ v.count? UInt64.size = some n.toNat := by
  cases t with
  | leaf v =>
    obtain ⟨k, hk, rfl⟩ := Option.map_eq_some_iff.mp h
    obtain ⟨m, -, hm⟩ := Option.bind_eq_some_iff.mp hk
    have hlt : k < UInt64.size := by
      split at hm
      · next hlt => exact Option.some.inj hm ▸ hlt
      · exact nomatch hm
    exact ⟨v, rfl, by rw [hk, UInt64.toNat_ofNat_of_lt' hlt]⟩
  | branch => exact nomatch h
  | list => exact nomatch h

end Tree

/-! ## the lock timeout -/

namespace Settings

variable {start : String} {vars : List (String × String)} {s : Settings}

theorem ofTree?_of_ofVars (h : ofVars start vars = .ok s) :
    ofTree? (Tree.ofVars start vars) = some s := by
  unfold ofVars at h
  split at h
  · exact nomatch h
  · next s' hs =>
    split at h
    · exact nomatch h
    · exact hs.trans (congrArg some (Except.ok.inj h))

theorem lockTimeout_of_ofTree? {t : Tree} (h : ofTree? t = some s) :
    (∃ v, t.at? ["database", "lock_timeout_ms"] = some (.leaf v) ∧
        v.count? UInt64.size = some s.database.lockTimeoutMs.toNat) ∨
      (t.at? ["database", "lock_timeout_ms"] = none ∧ s.database.lockTimeoutMs = 5000) := by
  simp only [ofTree?, Option.bind_eq_bind, Option.bind_eq_some_iff] at h
  obtain ⟨d, hd, worker, -, log, -, hs⟩ := h
  obtain ⟨u, hu, hd⟩ := Tree.required_eq_some hd
  simp only [DatabaseSettings.ofTree?, Option.bind_eq_bind, Option.bind_eq_some_iff] at hd
  obtain ⟨url, -, most, -, acquire, -, lock, hlock, hd⟩ := hd
  obtain rfl := Option.some.inj hs
  obtain rfl := Option.some.inj hd
  have hat : t.at? ["database", "lock_timeout_ms"] = u.at? ["lock_timeout_ms"] := by
    rw [show ["database", "lock_timeout_ms"] = ["database"] ++ ["lock_timeout_ms"] from rfl,
      Tree.at?_append, hu, Option.bind_some]
  rw [hat]
  rcases Tree.field_eq_some hlock with ⟨hnone, hdefault⟩ | ⟨x, hx, hread⟩
  · exact .inr ⟨hnone, hdefault⟩
  · obtain ⟨v, rfl, hv⟩ := Tree.long?_eq_some hread
    exact .inl ⟨v, hx, hv⟩

/-- The bound on waits for locks in settings that variables make. -/
theorem lockTimeout_of_ofVars (h : ofVars start vars = .ok s) :
    (∃ value, Tree.Settles start ["database", "lock_timeout_ms"] vars value ∧
        (Scalar.ofText value).count? UInt64.size = some s.database.lockTimeoutMs.toNat) ∨
      ((∀ value, ¬ Tree.Settles start ["database", "lock_timeout_ms"] vars value) ∧
        s.database.lockTimeoutMs = 5000) := by
  rcases lockTimeout_of_ofTree? (ofTree?_of_ofVars h) with ⟨v, hat, hv⟩ | ⟨hat, hdefault⟩
  · obtain ⟨value, hvalue, rfl⟩ := Tree.leaf_at?_ofVars.mp hat
    exact .inl ⟨value, hvalue, hv⟩
  · refine .inr ⟨fun value hvalue => ?_, hdefault⟩
    have hleaf := Tree.leaf_at?_ofVars.mpr ⟨value, hvalue, rfl⟩
    exact nomatch hat.symm.trans hleaf

end Settings

/-! ## numbers as texts -/

section
variable {n : Nat} {ds : List Char}

namespace Text

theorem toList_toString (n : Nat) : (toString n).toList = Nat.toDigits 10 n := String.toList_ofList

theorem isDigit_toDigits : ∀ c ∈ Nat.toDigits 10 n, c.isDigit = true := fun _ =>
  Nat.isDigit_of_mem_toDigits (by decide) (by decide)

/-- A word is not the text of a number. -/
theorem toString_ne {s : String} (h : s.toList.all Char.isDigit = false) : toString n ≠ s := by
  rintro rfl
  rw [toList_toString, List.all_eq_true.mpr isDigit_toDigits] at h
  exact nomatch h

theorem toLower_of_isDigit {c : Char} (h : c.isDigit = true) : c.toLower = c := by
  simp only [Char.isDigit, Bool.and_eq_true, decide_eq_true_eq] at h
  unfold Char.toLower
  refine dif_neg fun hc => ?_
  exact absurd (UInt32.le_trans hc.1 h.2) (by decide)

theorem lower_toString (n : Nat) : String.ofList (lower (toString n)) = toString n := by
  unfold lower
  rw [toList_toString, List.map_congr_left fun c hc => toLower_of_isDigit (isDigit_toDigits c hc),
    List.map_id']
  rfl

end Text

namespace Number

theorem signed_digits (hds : ∀ c ∈ ds, c.isDigit = true) : signed ds = (false, ds) := by
  unfold signed
  split
  · exact absurd (hds '-' List.mem_cons_self) (by decide)
  · exact absurd (hds '+' List.mem_cons_self) (by decide)
  · rfl

theorem int?_toString (h : 2 * n < UInt64.size) : int? (toString n) = some (n : Int) := by
  have hempty : (Nat.toDigits 10 n).isEmpty = false :=
    List.isEmpty_eq_false_iff.mpr Nat.toDigits_ne_nil
  have hall : (Nat.toDigits 10 n).all Char.isDigit = true :=
    List.all_eq_true.mpr Text.isDigit_toDigits
  have hvalue : digitValue 0 (Nat.toDigits 10 n) = n :=
    Nat.ofDigitChars_toDigits (by decide) (by decide)
  unfold int?
  rw [Text.toList_toString, signed_digits Text.isDigit_toDigits]
  simp only [hempty, hall, hvalue, Bool.not_true, Bool.or_self, Bool.false_eq_true, if_false]
  exact if_pos (by omega)

end Number

namespace Scalar

theorem ofText_toString (h : 2 * n < UInt64.size) : ofText (toString n) = .int n := by
  unfold ofText
  rw [Text.lower_toString, if_neg (Text.toString_ne (by decide)),
    if_neg (Text.toString_ne (by decide)), Number.int?_toString h]

theorem count?_natCast {bound : Nat} (h : n < bound) : (int n).count? bound = some n := by
  have hlong : (int n).long? = some n := by
    show (if (0 : Int) ≤ n then some (n : Int).toNat else none) = some n
    rw [if_pos (Int.natCast_nonneg n), Int.toNat_natCast]
  unfold count?
  rw [hlong, Option.bind_some, if_pos h]

end Scalar

end

end JobEngine
