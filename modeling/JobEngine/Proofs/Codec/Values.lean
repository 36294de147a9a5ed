import JobEngine.Job.Codec
import JobEngine.Proofs.Time.Written

/-!
# Values are read as they are written

* `Uuid.parse?_text`      identifiers, from their digits in groups;
* `Uuid.ofJson?_toJson` and its like, `Json.asLong?_ofLong`   the values of fields;
* `Json.list?_map`        arrays, item by item;
* `Json.fields?_record`   an object has the members that it was made of;
* `orNull?_ofOption`      a value that may be missing, and is lost if it is written `null`;
* `Fields.Of.required`, `Fields.Of.optional`   a field is read from the member of its name.
-/

namespace JobEngine

/-! ## identifiers -/

namespace Uuid

theorem ungrouped?_groups {a b c d e : List Char} (ha : a.length = 8) (hb : b.length = 4)
    (hc : c.length = 4) (hd : d.length = 4) (he : e.length = 12) :
    ungrouped? (a ++ '-' :: b ++ '-' :: c ++ '-' :: d ++ '-' :: e) =
      some (a ++ b ++ c ++ d ++ e) := by
  unfold ungrouped?
  simp [List.drop_append, List.drop_of_length_le, ha, hb, hc, hd, he]

theorem groups_append (cs : List Char) :
    cs.take 8 ++ (cs.drop 8).take 4 ++ (cs.drop 12).take 4 ++ (cs.drop 16).take 4 ++ cs.drop 20 =
      cs := by
  have hnext (n : Nat) : (cs.drop n).take 4 ++ cs.drop (n + 4) = cs.drop n := by
    rw [← List.drop_drop, List.take_append_drop]
  rw [List.append_assoc, hnext 16, List.append_assoc, hnext 12, List.append_assoc, hnext 8,
    List.take_append_drop]

theorem ungrouped?_hyphenated {cs : List Char} (h : cs.length = 32) :
    ungrouped? (hyphenated cs) = some cs := by
  unfold hyphenated
  rw [ungrouped?_groups (by simp [h]) (by simp [h]) (by simp [h]) (by simp [h]) (by simp [h]),
    groups_append]

theorem mem_hyphenated {cs : List Char} {c : Char} (h : c ∈ hyphenated cs) : c = '-' ∨ c ∈ cs := by
  unfold hyphenated at h
  simp only [List.mem_append, List.mem_cons] at h
  grind [List.mem_of_mem_take, List.mem_of_mem_drop]

theorem utf8Size_of_mem_hexDigits {width n : Nat} {c : Char} :
    c ∈ Text.hexDigits width n → c.utf8Size = 1 := by
  induction width generalizing n with
  | zero => nofun
  | succ width ih =>
    intro h
    rcases List.mem_append.mp h with h | h
    · exact ih h
    · have hdigit : ∀ d : Fin 16, (Nat.digitChar d).utf8Size = 1 := by decide
      rw [List.mem_singleton.mp h]
      exact hdigit ⟨n % 16, Nat.mod_lt n (by decide)⟩

theorem byteLength_eq_length {cs : List Char} (h : ∀ c ∈ cs, c.utf8Size = 1) :
    byteLength cs = cs.length := by
  induction cs with
  | nil => rfl
  | cons c cs ih =>
    obtain ⟨hc, hcs⟩ := List.forall_mem_cons.mp h
    show c.utf8Size + byteLength cs = cs.length + 1
    rw [hc, ih hcs, Nat.add_comm]

theorem grouped?_of_byteLength {cs : List Char} (h : byteLength cs = 36) :
    grouped? cs = some cs := by
  unfold grouped?
  split <;> simp_all

/-- An identifier is read as it is written. -/
theorem parse?_text (u : Uuid) : parse? u.text.toList = some u := by
  have hlength : u.digits.length = 32 := Text.length_hexDigits 32 _
  have hbytes : byteLength (hyphenated u.digits) = 36 := by
    rw [byteLength_eq_length fun c hc => ?_]
    · simp [hyphenated, hlength]
    · rcases mem_hyphenated hc with rfl | hc
      · rfl
      · exact utf8Size_of_mem_hexDigits hc
  have hvalue : Text.hexNumber? 0 u.digits = some u.bits.toNat := by
    rw [digits, Text.hexNumber?_hexDigits 0 32 _ u.bits.isLt, Nat.zero_mul, Nat.zero_add]
  unfold parse? text
  rw [String.toList_ofList, grouped?_of_byteLength hbytes]
  dsimp only
  rw [ungrouped?_hyphenated hlength, Option.bind_some, ofDigits?, if_pos hlength, hvalue]
  simp

theorem ofJson?_toJson (u : Uuid) : ofJson? u.toJson = some u := u.parse?_text

end Uuid

/-! ## values of fields -/

theorem Instant.ofJson?_toJson (t : Instant) : ofJson? t.toJson = some t := t.parse?_text

theorem Instant.toJson_ne_null (t : Instant) : t.toJson ≠ .null := by
  unfold toJson
  exact Json.noConfusion

theorem ProjectId.ofJson?_toJson (p : ProjectId) : ofJson? p.toJson = some p := rfl

theorem Status.ofJson?_toJson (s : Status) : ofJson? s.toJson = some s := s.ofText?_text

namespace Json

theorem asStr?_str (s : String) : asStr? (.str s) = some s := rfl

theorem asNat?_nat {bound n : Nat} (h : n < bound) : asNat? bound (nat n) = some n := if_pos h

theorem asWord?_ofWord (n : UInt32) : asWord? (ofWord n) = some n := by
  unfold asWord? ofWord
  rw [asNat?_nat n.toNat_lt, Option.map_some, UInt32.ofNat_toNat]

theorem asLong?_ofLong (n : UInt64) : asLong? (ofLong n) = some n := by
  unfold asLong? ofLong
  rw [asNat?_nat n.toNat_lt, Option.map_some, UInt64.ofNat_toNat]

/-- What is read of an array, item by item. -/
theorem list?_map {α β : Type} {write : α → Json} {read : Json → Option β} {g : α → β}
    (h : ∀ a, read (write a) = some (g a)) (xs : List α) :
    list? read (.arr (xs.map write)) = some (xs.map g) := by
  show (xs.map write).mapM read = _
  induction xs with
  | nil => rfl
  | cons x xs ih => simp [h, ih]

theorem list?_map_self {α : Type} {write : α → Json} {read : Json → Option α}
    (h : ∀ a, read (write a) = some a) (xs : List α) :
    list? read (.arr (xs.map write)) = some xs :=
  (list?_map h xs).trans (congrArg some xs.map_id)

/-! ## objects -/

theorem lookup_eq_none {key : String} {ms : List (String × Json)} (h : key ∉ ms.map Prod.fst) :
    lookup key ms = none := by
  induction ms with
  | nil => rfl
  | cons m ms ih =>
    obtain ⟨k, v⟩ := m
    obtain ⟨hk, hms⟩ := not_or.mp (mt List.mem_cons.mpr h)
    rw [lookup_cons, if_neg (Ne.symm hk), ih hms]

theorem lookup_foldl_insert (key : String) {ms : List (String × Json)}
    (h : (ms.map Prod.fst).Nodup) (acc : List (String × Json)) :
    lookup key (ms.foldl (fun acc m => insert m.1 m.2 acc) acc) =
      (lookup key ms).or (lookup key acc) := by
  induction ms generalizing acc with
  | nil => rfl
  | cons m ms ih =>
    obtain ⟨k, v⟩ := m
    obtain ⟨hk, hms⟩ := List.nodup_cons.mp h
    rw [List.foldl_cons, ih hms, lookup_insert, lookup_cons]
    by_cases heq : k = key
    · rw [if_pos heq, if_pos heq, lookup_eq_none (heq ▸ hk)]
      rfl
    · rw [if_neg heq, if_neg heq]

/-- The fields are those of an object with the given members. -/
def Fields.Of (f : Fields) (ms : List (String × Json)) : Prop :=
  ∀ name, lookup name f.members = lookup name ms

/-- An object has the members that it was made of, if no two have one name. -/
theorem fields?_record (names : List String) (ms : List (String × Json))
    (h : (ms.map Prod.fst).Nodup) : ∃ f, (record ms).fields? names = some f ∧ f.Of ms := by
  refine ⟨_, rfl, fun name => ?_⟩
  rw [lookup_foldl_insert name h, lookup_nil, Option.or_none]

/-- A value that may be `null`, which then stands for none. -/
def orNull? (read : Json → Option α) : Json → Option (Option α)
  | .null => some none
  | v => (read v).map some

theorem orNull?_of_ne {α : Type} {v : Json} (read : Json → Option α) (h : v ≠ .null) :
    orNull? read v = (read v).map some := by
  cases v with
  | null => exact absurd rfl h
  | bool | num | str | arr | obj => rfl

/-- What is written `null` does not come back. -/
theorem orNull?_ofOption {α : Type} (write : α → Json) {read : Json → Option α}
    (hread : ∀ a, read (write a) = some a) (x : Option α) :
    orNull? read (ofOption write x) = some (x.filter fun a => decide (write a ≠ .null)) := by
  cases x with
  | none => rfl
  | some a =>
    show orNull? read (write a) = _
    by_cases hnull : write a = .null
    · rw [Option.filter_some, if_neg (by simp [hnull]), hnull]
      rfl
    · rw [Option.filter_some, if_pos (decide_eq_true hnull), orNull?_of_ne read hnull, hread,
        Option.map_some]

/-- All else does. -/
theorem orNull?_ofOption_self {α : Type} {write : α → Json} {read : Json → Option α}
    (hread : ∀ a, read (write a) = some a) (hnull : ∀ a, write a ≠ .null) (x : Option α) :
    orNull? read (ofOption write x) = some x := by
  rw [orNull?_ofOption write hread]
  cases x with
  | none => rfl
  | some a => rw [Option.filter_some, if_pos (decide_eq_true (hnull a))]

namespace Fields.Of

variable {α β : Type} {f : Fields} {ms : List (String × Json)} {v : Json}

/-- Read a field, and go on with its value. -/
theorem required {read : Json → Option α} {a : α} (h : f.Of ms) (name : String)
    (hname : lookup name ms = some v) (hread : read v = some a) (next : α → Option β) :
    (f.required name read >>= next) = next a := by
  unfold Fields.required
  rw [h name, hname, Option.bind_some, hread]
  rfl

theorem optional {read : Json → Option α} {x : Option α} (h : f.Of ms) (name : String)
    (hname : lookup name ms = some v) (hread : orNull? read v = some x)
    (next : Option α → Option β) : (f.optional name read >>= next) = next x := by
  have hv : f.optional name read = orNull? read v := by
    unfold Fields.optional
    rw [h name, hname]
    cases v <;> rfl
  rw [hv, hread]
  rfl

end Fields.Of

end Json

end JobEngine
