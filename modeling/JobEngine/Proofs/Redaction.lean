import JobEngine.Job.Basic
import JobEngine.Job.Redact

/-!
# Values that differ in their secrets

* `Secret.Hides`       the keys that hide their values;
* `Json.Alike`         two values that differ under such keys only;
* `redact_eq_iff`      these and no others are the same when they are redacted;
* `redact_redact`      a redacted value has nothing left to hide;
* `Json.at?`           the value at a place in another;
* `redact_at?`         what is at a place below no such key is redacted there;
* `redact_hides_and_keeps`   all of it, and what a job is said to work on.
-/

namespace JobEngine

/-- The key has `password` or `user_data` in it, when its capital ASCII letters are made small. -/
def Secret.Hides (key : String) : Prop :=
  Text.occurs "password".toList (Text.lower key) ∨ Text.occurs "user_data".toList (Text.lower key)

theorem Secret.hides_iff {key : String} : Secret.Hides key ↔ Secret.ofKey key ≠ .none := by
  unfold Hides ofKey
  dsimp only
  generalize Text.occurs "password".toList (Text.lower key) = password
  generalize Text.occurs "user_data".toList (Text.lower key) = userData
  cases password <;> cases userData <;> decide

namespace Json

mutual

/-- The values differ under keys that hide theirs, and nowhere else. -/
inductive Alike : Json → Json → Prop
  | same (v : Json) : Alike v v
  | arr {vs ws : List Json} : AlikeItems vs ws → Alike (.arr vs) (.arr ws)
  | obj {ms ns : List (String × Json)} : AlikeMembers ms ns → Alike (.obj ms) (.obj ns)

inductive AlikeItems : List Json → List Json → Prop
  | nil : AlikeItems [] []
  | cons {v w : Json} {vs ws : List Json} :
    Alike v w → AlikeItems vs ws → AlikeItems (v :: vs) (w :: ws)

inductive AlikeMembers : List (String × Json) → List (String × Json) → Prop
  | nil : AlikeMembers [] []
  | hidden {k : String} (v w : Json) {ms ns : List (String × Json)} :
    Secret.Hides k → AlikeMembers ms ns → AlikeMembers ((k, v) :: ms) ((k, w) :: ns)
  | shown {k : String} {v w : Json} {ms ns : List (String × Json)} :
    Alike v w → AlikeMembers ms ns → AlikeMembers ((k, v) :: ms) ((k, w) :: ns)

end

theorem redactMembers_hidden {k : String} (v w : Json) {ms ns : List (String × Json)}
    (hk : Secret.Hides k) (h : redactMembers ms = redactMembers ns) :
    redactMembers ((k, v) :: ms) = redactMembers ((k, w) :: ns) := by
  unfold redactMembers
  rw [h]
  cases hs : Secret.ofKey k with
  | password => rfl
  | userData => rfl
  | none => exact absurd hs (Secret.hides_iff.mp hk)

theorem redactMembers_shown {k : String} {v w : Json} {ms ns : List (String × Json)}
    (hv : v.redact = w.redact) (h : redactMembers ms = redactMembers ns) :
    redactMembers ((k, v) :: ms) = redactMembers ((k, w) :: ns) := by
  unfold redactMembers
  rw [h, hv]

mutual

theorem Alike.redact_eq : {v w : Json} → v.Alike w → v.redact = w.redact
  | _, _, .same _ => rfl
  | _, _, .arr h => congrArg Json.arr h.redact_eq
  | _, _, .obj h => congrArg Json.obj h.redact_eq

theorem AlikeItems.redact_eq : {vs ws : List Json} → AlikeItems vs ws →
    redactItems vs = redactItems ws
  | _, _, .nil => rfl
  | _, _, .cons hv h => by unfold redactItems; rw [hv.redact_eq, h.redact_eq]

theorem AlikeMembers.redact_eq : {ms ns : List (String × Json)} → AlikeMembers ms ns →
    redactMembers ms = redactMembers ns
  | _, _, .nil => rfl
  | _, _, .hidden v w hk h => redactMembers_hidden v w hk h.redact_eq
  | _, _, .shown hv h => redactMembers_shown hv.redact_eq h.redact_eq

end

mutual

/-- Only what is hidden is taken away. -/
theorem alike_redact : (v : Json) → v.redact.Alike v
  | .arr vs => .arr (alike_redactItems vs)
  | .obj ms => .obj (alike_redactMembers ms)
  | .null => .same _
  | .bool _ => .same _
  | .num _ => .same _
  | .str _ => .same _

theorem alike_redactItems : (vs : List Json) → AlikeItems (redactItems vs) vs
  | [] => .nil
  | v :: vs => .cons (alike_redact v) (alike_redactItems vs)

theorem alike_redactMembers : (ms : List (String × Json)) → AlikeMembers (redactMembers ms) ms
  | [] => .nil
  | (k, v) :: ms => by
    have hms := alike_redactMembers ms
    cases hk : Secret.ofKey k with
    | password | userData =>
      exact .hidden _ _ (Secret.hides_iff.mpr (by rw [hk]; simp)) hms
    | none =>
      have hv := alike_redact v
      unfold redactMembers
      rw [hk]
      exact .shown hv hms

end

theorem redact_redact (v : Json) : v.redact.redact = v.redact := (alike_redact v).redact_eq

mutual

theorem Alike.symm : {v w : Json} → v.Alike w → w.Alike v
  | _, _, .same v => .same v
  | _, _, .arr h => .arr h.symm
  | _, _, .obj h => .obj h.symm

theorem AlikeItems.symm : {vs ws : List Json} → AlikeItems vs ws → AlikeItems ws vs
  | _, _, .nil => .nil
  | _, _, .cons hv h => .cons hv.symm h.symm

theorem AlikeMembers.symm : {ms ns : List (String × Json)} → AlikeMembers ms ns →
    AlikeMembers ns ms
  | _, _, .nil => .nil
  | _, _, .hidden v w hk h => .hidden w v hk h.symm
  | _, _, .shown hv h => .shown hv.symm h.symm

end

mutual

theorem Alike.trans : {v w x : Json} → v.Alike w → w.Alike x → v.Alike x
  | _, _, _, .same _, h => h
  | _, _, _, h, .same _ => h
  | _, _, _, .arr h, .arr h' => .arr (h.trans h')
  | _, _, _, .obj h, .obj h' => .obj (h.trans h')

theorem AlikeItems.trans : {vs ws xs : List Json} → AlikeItems vs ws → AlikeItems ws xs →
    AlikeItems vs xs
  | _, _, _, .nil, .nil => .nil
  | _, _, _, .cons hv h, .cons hv' h' => .cons (hv.trans hv') (h.trans h')

/-- A key that hides its value does so on both sides. -/
theorem AlikeMembers.trans : {ms ns os : List (String × Json)} → AlikeMembers ms ns →
    AlikeMembers ns os → AlikeMembers ms os
  | _, _, _, .nil, .nil => .nil
  | _, _, _, .hidden v _ hk h, .hidden _ x _ h' => .hidden v x hk (h.trans h')
  | _, _, _, .hidden v _ hk h, .shown _ h' => .hidden v _ hk (h.trans h')
  | _, _, _, .shown _ h, .hidden _ x hk h' => .hidden _ x hk (h.trans h')
  | _, _, _, .shown hv h, .shown hv' h' => .shown (hv.trans hv') (h.trans h')

end

/-- Redacted values tell all but what was hidden. -/
theorem redact_eq_iff {v w : Json} : v.redact = w.redact ↔ v.Alike w := by
  refine ⟨fun h => ?_, Alike.redact_eq⟩
  have hw : v.redact.Alike w := h ▸ alike_redact w
  exact (alike_redact v).symm.trans hw

/-! ## places -/

/-- A step into a value. -/
inductive Place
  | key (k : String)
  | item (i : Nat)

/-- The value at the end of some steps. -/
def at? : List Place → Json → Option Json
  | [], v => some v
  | .key k :: p, .obj ms => (lookup k ms).bind (at? p)
  | .item i :: p, .arr vs => vs[i]?.bind (at? p)
  | _ :: _, _ => none

/-- What a value is without what is in it: the length of an array, the keys of an object in order,
and a scalar as it is. -/
def shell : Json → Json
  | .arr vs => .arr (vs.map fun _ => .null)
  | .obj ms => .obj (ms.map fun m => (m.1, .null))
  | v => v

theorem redactItems_eq_map (vs : List Json) : redactItems vs = vs.map redact := by
  induction vs with
  | nil => rfl
  | cons v vs ih => exact congrArg (v.redact :: ·) ih

theorem redactMembers_cons_shown {k : String} {v : Json} {ms : List (String × Json)}
    (hk : ¬ Secret.Hides k) : redactMembers ((k, v) :: ms) = (k, v.redact) :: redactMembers ms := by
  have hclass : Secret.ofKey k = .none := Decidable.not_not.mp (mt Secret.hides_iff.mpr hk)
  rw [redactMembers, hclass]

theorem keys_redactMembers (ms : List (String × Json)) :
    (redactMembers ms).map Prod.fst = ms.map Prod.fst := by
  induction ms with
  | nil => rfl
  | cons m ms ih => exact congrArg (m.1 :: ·) ih

theorem lookup_redactMembers {k : String} (hk : ¬ Secret.Hides k) (ms : List (String × Json)) :
    lookup k (redactMembers ms) = (lookup k ms).map redact := by
  induction ms with
  | nil => rfl
  | cons m ms ih =>
    obtain ⟨k', v⟩ := m
    by_cases h : k' = k
    · subst h
      rw [redactMembers_cons_shown hk, lookup_cons, lookup_cons, if_pos rfl, if_pos rfl]
      rfl
    · rw [redactMembers, lookup_cons, lookup_cons, if_neg h, if_neg h, ih]

/-- No place below a key that hides is changed but by what is hidden deeper in it. -/
theorem redact_at? {p : List Place} (hp : ∀ k, .key k ∈ p → ¬ Secret.Hides k) (v : Json) :
    v.redact.at? p = (v.at? p).map redact := by
  induction p generalizing v with
  | nil => rfl
  | cons step p ih =>
    have ih := ih fun k hk => hp k (List.mem_cons_of_mem _ hk)
    cases step with
    | key k =>
      cases v with
      | obj ms =>
        show (lookup k (redactMembers ms)).bind (at? p) = ((lookup k ms).bind (at? p)).map redact
        rw [lookup_redactMembers (hp k List.mem_cons_self)]
        cases lookup k ms with
        | none => rfl
        | some w => exact ih w
      | _ => rfl
    | item i =>
      cases v with
      | arr vs =>
        show (redactItems vs)[i]?.bind (at? p) = (vs[i]?.bind (at? p)).map redact
        rw [redactItems_eq_map, List.getElem?_map]
        cases vs[i]? with
        | none => rfl
        | some w => exact ih w
      | _ => rfl

theorem redact_shell (v : Json) : v.redact.shell = v.shell := by
  cases v with
  | arr vs =>
    show Json.arr ((redactItems vs).map _) = Json.arr (vs.map _)
    rw [redactItems_eq_map, List.map_map]
    rfl
  | obj ms =>
    show Json.obj ((redactMembers ms).map ((·, Json.null) ∘ Prod.fst)) =
      Json.obj (ms.map ((·, Json.null) ∘ Prod.fst))
    rw [← List.map_map, keys_redactMembers, List.map_map]
  | _ => rfl

end Json

namespace Job

theorem asStr?_redact (v : Json) : v.redact.asStr? = v.asStr? := by
  cases v <;> rfl

/-- Texts under a key that hides nothing are found in redacted parameters, too. -/
theorem textsUnder_redact {key : String} (hk : ¬ Secret.Hides key) (params : Json) :
    textsUnder key params.redact = textsUnder key params := by
  have hget : params.redact.get? key = (params.get? key).map Json.redact := by
    cases params with
    | obj ms => exact Json.lookup_redactMembers hk ms
    | _ => rfl
  unfold textsUnder
  rw [hget]
  cases params.get? key with
  | none => rfl
  | some v =>
    cases v with
    | arr vs =>
      show (Json.redactItems vs).filterMap Json.asStr? = vs.filterMap Json.asStr?
      rw [Json.redactItems_eq_map, List.filterMap_map]
      exact congrArg (vs.filterMap ·) (funext asStr?_redact)
    | _ => rfl

end Job

/-- **What redacting hides, and what it keeps.**  Two values are the same when they are redacted if
and only if they differ just under keys that have `password` or `user_data` in them, when their
capital ASCII letters are made small.  Redacting twice is redacting once.  At a place below no such
key there is the same scalar as before, an array of the same length or an object with the same keys
in the same order.  A job works on the same resources by its redacted parameters. -/
theorem redact_hides_and_keeps :
    (∀ key, Secret.Hides key ↔ "password".toList <:+: Text.lower key ∨
      "user_data".toList <:+: Text.lower key) ∧
    (∀ v w : Json, v.redact = w.redact ↔ v.Alike w) ∧
    (∀ v : Json, v.redact.redact = v.redact) ∧
    (∀ (v : Json) (p : List Json.Place), (∀ k, .key k ∈ p → ¬ Secret.Hides k) →
      (v.redact.at? p).map Json.shell = (v.at? p).map Json.shell) ∧
    ∀ j : Job, { j with params := j.params.redact }.resources = j.resources := by
  refine ⟨fun key => or_congr Text.occurs_iff Text.occurs_iff, fun v w => Json.redact_eq_iff,
    Json.redact_redact, fun v p hp => ?_, fun j => ?_⟩
  · rw [Json.redact_at? hp, Option.map_map]
    exact congrArg ((v.at? p).map ·) (funext Json.redact_shell)
  · have hshown : ¬ Secret.Hides "resource_ids" := fun h => Secret.hides_iff.mp h (by decide)
    exact Job.textsUnder_redact hshown j.params

/-- Parameters with a secret in a list of networks. -/
def networkParams (secret : Json) : Json :=
  .obj [("networks", .arr [.obj [("admin_Password", secret), ("cidr", .str "10.0.0.0/24")]])]

theorem network_secret_is_hidden :
    (networkParams (.str "x")).redact = (networkParams .null).redact ∧
    ((networkParams .null).redact.at? [.key "networks", .item 0, .key "cidr"]).map Json.shell =
      some (.str "10.0.0.0/24") := by
  obtain ⟨-, halike, -, hkept, -⟩ := redact_hides_and_keeps
  have hpassword : Secret.Hides "admin_Password" := Or.inl (by decide)
  refine ⟨(halike _ _).mpr ?_, (hkept _ _ fun k hk => ?_).trans rfl⟩
  · exact .obj (.shown (.arr (.cons (.obj (.hidden _ _ hpassword (.shown (.same _) .nil))) .nil))
      .nil)
  · obtain rfl | rfl : k = "networks" ∨ k = "cidr" := by simpa using hk
    · exact fun h => Secret.hides_iff.mp h (by decide)
    · exact fun h => Secret.hides_iff.mp h (by decide)

end JobEngine
