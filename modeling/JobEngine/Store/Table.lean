/-!
# Finite tables

A table is a list of keys with values.  A key that is set again keeps its place.

* `Table.get?`, `Table.set`, `Table.erase`   and what one says after another;
* `Table.Distinct`   no key has two entries, so that an entry is what its key gives.
-/

namespace JobEngine

/-- Values filed under keys. -/
abbrev Table (κ α : Type) := List (κ × α)

namespace Table

variable {κ α : Type} [DecidableEq κ]

def get? (key : κ) : Table κ α → Option α
  | [] => none
  | (k, a) :: rest => if k = key then some a else get? key rest

def contains (t : Table κ α) (key : κ) : Bool := (get? key t).isSome

def set (key : κ) (value : α) : Table κ α → Table κ α
  | [] => [(key, value)]
  | (k, a) :: rest => if k = key then (key, value) :: rest else (k, a) :: set key value rest

def erase (key : κ) (t : Table κ α) : Table κ α := t.filter fun e => !decide (e.1 = key)

def values (t : Table κ α) : List α := t.map Prod.snd

/-- All entries of `more` set over those of `t`. -/
def setAll (more t : Table κ α) : Table κ α := more.foldl (fun t e => set e.1 e.2 t) t

@[simp] theorem get?_nil (key : κ) : get? key ([] : Table κ α) = none := rfl

theorem get?_cons (key k : κ) (a : α) (t : Table κ α) :
    get? key ((k, a) :: t) = if k = key then some a else get? key t := rfl

theorem get?_set (key k : κ) (a : α) (t : Table κ α) :
    get? key (set k a t) = if k = key then some a else get? key t := by
  induction t with
  | nil => rfl
  | cons e t ih =>
    obtain ⟨k', b⟩ := e
    by_cases h : k' = k
    · subst h; simp only [set, if_true, get?_cons]; split <;> rfl
    · simp only [set, h, if_false, get?_cons, ih]
      by_cases hk : k' = key
      · subst hk; simp [Ne.symm h]
      · simp [hk]

theorem get?_erase (key k : κ) (t : Table κ α) :
    get? key (erase k t) = if k = key then none else get? key t := by
  induction t with
  | nil => simp [erase]
  | cons e t ih =>
    obtain ⟨k', b⟩ := e
    unfold erase at ih ⊢
    by_cases h : k' = k
    · subst h
      simp only [List.filter_cons, decide_true, Bool.not_true, Bool.false_eq_true, if_false, ih,
        get?_cons]
      split <;> rfl
    · simp only [List.filter_cons, h, decide_false, Bool.not_false, if_true, get?_cons, ih]
      by_cases hk : k' = key
      · subst hk; simp [Ne.symm h]
      · simp [hk]

/-! ## keys -/

def keys (t : Table κ α) : List κ := t.map Prod.fst

/-- No key has two entries. -/
def Distinct (t : Table κ α) : Prop := (keys t).Nodup

omit [DecidableEq κ] in
@[simp] theorem keys_nil : keys ([] : Table κ α) = [] := rfl

omit [DecidableEq κ] in
@[simp] theorem keys_cons (e : κ × α) (t : Table κ α) : keys (e :: t) = e.1 :: keys t := rfl

theorem get?_eq_none_iff {key : κ} {t : Table κ α} : get? key t = none ↔ key ∉ keys t := by
  induction t with
  | nil => simp
  | cons e t ih =>
    obtain ⟨k, a⟩ := e
    rw [get?_cons, keys_cons, List.mem_cons]
    by_cases h : k = key
    · simp [h]
    · simp [h, Ne.symm h, ih]

theorem get?_of_mem {key : κ} {a : α} {t : Table κ α} (hd : Distinct t) (h : (key, a) ∈ t) :
    get? key t = some a := by
  induction t with
  | nil => simp at h
  | cons e t ih =>
    obtain ⟨k, b⟩ := e
    have hd' : k ∉ keys t ∧ Distinct t := List.nodup_cons.mp hd
    rw [get?_cons]
    rcases List.mem_cons.mp h with h | h
    · injection h with hk ha; subst hk; subst ha; exact if_pos rfl
    · have hne : k ≠ key := by
        intro hk
        exact hd'.1 (hk ▸ List.mem_map.mpr ⟨_, h, rfl⟩)
      rw [if_neg hne]
      exact ih hd'.2 h

theorem mem_of_get? {key : κ} {a : α} {t : Table κ α} (h : get? key t = some a) :
    (key, a) ∈ t := by
  induction t with
  | nil => simp at h
  | cons e t ih =>
    obtain ⟨k, b⟩ := e
    rw [get?_cons] at h
    split at h
    · next hk =>
      obtain rfl := Option.some.inj h
      exact hk ▸ List.mem_cons_self
    · exact List.mem_cons_of_mem _ (ih h)

theorem mem_keys_set {key k : κ} {a : α} {t : Table κ α} :
    key ∈ keys (set k a t) ↔ key = k ∨ key ∈ keys t := by
  have hs : get? key (set k a t) = none ↔ key ∉ keys (set k a t) := get?_eq_none_iff
  have ht : get? key t = none ↔ key ∉ keys t := get?_eq_none_iff
  rw [get?_set] at hs
  by_cases h : k = key
  · subst h
    simpa using hs
  · rw [if_neg h] at hs
    have := Ne.symm h
    grind

theorem distinct_set (k : κ) (a : α) {t : Table κ α} (hd : Distinct t) : Distinct (set k a t) := by
  induction t with
  | nil => exact List.nodup_cons.mpr ⟨List.not_mem_nil, List.nodup_nil⟩
  | cons e t ih =>
    obtain ⟨k', b⟩ := e
    have hd' : k' ∉ keys t ∧ Distinct t := List.nodup_cons.mp hd
    unfold set
    split
    · next h => subst h; exact List.nodup_cons.mpr hd'
    · next h =>
      refine List.nodup_cons.mpr ⟨?_, ih hd'.2⟩
      intro hm
      rcases mem_keys_set.mp hm with hm | hm
      · exact h hm
      · exact hd'.1 hm

omit [DecidableEq κ] in
theorem distinct_filter (p : κ × α → Bool) {t : Table κ α} (hd : Distinct t) :
    Distinct (t.filter p) :=
  hd.sublist (List.filter_sublist.map _)

theorem get?_filter {t : Table κ α} (hd : Distinct t) (p : κ × α → Bool) (key : κ) :
    get? key (t.filter p) = (get? key t).filter fun a => p (key, a) := by
  induction t with
  | nil => rfl
  | cons e t ih =>
    obtain ⟨k, a⟩ := e
    have hd' : k ∉ keys t ∧ Distinct t := List.nodup_cons.mp hd
    have ih := ih hd'.2
    by_cases hk : k = key
    · subst hk
      have hno : get? k t = none := get?_eq_none_iff.mpr hd'.1
      rw [hno] at ih
      by_cases hp : p (k, a) = true
      · simp [get?_cons, hp, Option.filter]
      · simpa [get?_cons, hp, Option.filter] using ih
    · by_cases hp : p (k, a) = true
      · simpa [get?_cons, hp, hk] using ih
      · simpa [get?_cons, hp, hk] using ih

theorem get?_setAll {more : Table κ α} (hd : Distinct more) (t : Table κ α) (key : κ) :
    get? key (setAll more t) = (get? key more).or (get? key t) := by
  induction more generalizing t with
  | nil => rfl
  | cons e more ih =>
    obtain ⟨k, a⟩ := e
    have hd' : k ∉ keys more ∧ Distinct more := List.nodup_cons.mp hd
    have h := ih hd'.2 (set k a t)
    show get? key (setAll more (set k a t)) = _
    rw [h, get?_set, get?_cons]
    by_cases hk : k = key
    · subst hk
      rw [get?_eq_none_iff.mpr hd'.1]
      simp
    · simp [hk]

theorem distinct_setAll {more t : Table κ α} (hd : Distinct t) : Distinct (setAll more t) := by
  induction more generalizing t with
  | nil => exact hd
  | cons e more ih => exact ih (distinct_set e.1 e.2 hd)


end Table

end JobEngine
