import JobEngine.Store.Query
import Mathlib.Data.List.Nodup

/-!
# The order of listings

* `Job.precedes_trans`, `precedes_total`, `precedes_antisymm`   the order of creation;
* `SortOrder.before`         the same in the direction of a listing;
* `Query.ordered_perm`       a listing has each match once;
* `Query.ordered_pairwise`   it goes in its direction;
* `Query.eq_ordered`         if the jobs have keys of their own, no other list does both.
-/

namespace JobEngine

variable {a b c : Job} {js ks : List Job}

/-! ## by creation -/

namespace Job

theorem precedes_iff :
    a.precedes b = true ↔ a.created ≤ b.created ∧ (b.created ≤ a.created → a.id ≤ b.id) := by
  unfold precedes
  rw [Bool.or_eq_true, Bool.and_eq_true, decide_eq_true_iff, decide_eq_true_iff,
    decide_eq_true_iff, Instant.lt_def]
  constructor
  · rintro (h | ⟨h, hid⟩)
    · exact ⟨(Instant.le_total _ _).resolve_right h, fun h' => absurd h' h⟩
    · exact ⟨h ▸ Instant.le_refl _, fun _ => hid⟩
  · rintro ⟨h, hid⟩
    by_cases h' : b.created ≤ a.created
    · exact Or.inr ⟨Instant.le_antisymm h h', hid h'⟩
    · exact Or.inl h'

theorem precedes_trans (hab : a.precedes b = true) (hbc : b.precedes c = true) :
    a.precedes c = true := by
  rw [precedes_iff] at hab hbc ⊢
  refine ⟨Instant.le_trans hab.1 hbc.1, fun hca => ?_⟩
  have hba : b.created ≤ a.created := Instant.le_trans hbc.1 hca
  have hcb : c.created ≤ b.created := Instant.le_trans hca hab.1
  exact BitVec.le_trans (hab.2 hba) (hbc.2 hcb)

theorem precedes_total (a b : Job) : a.precedes b = true ∨ b.precedes a = true := by
  rw [precedes_iff, precedes_iff]
  by_cases hab : a.created ≤ b.created
  · by_cases hba : b.created ≤ a.created
    · rcases BitVec.le_total a.id.bits b.id.bits with h | h
      · exact Or.inl ⟨hab, fun _ => h⟩
      · exact Or.inr ⟨hba, fun _ => h⟩
    · exact Or.inl ⟨hab, fun h => absurd h hba⟩
  · exact Or.inr ⟨(Instant.le_total _ _).resolve_left hab, fun h => absurd h hab⟩

/-- Jobs that come before each other have one key. -/
theorem precedes_antisymm (hab : a.precedes b = true) (hba : b.precedes a = true) :
    a.id = b.id := by
  rw [precedes_iff] at hab hba
  exact congrArg Uuid.mk (BitVec.le_antisymm (hab.2 hba.1) (hba.2 hab.1))

end Job

/-! ## in a direction -/

/-- Whether one job comes before another in the direction of a listing. -/
def SortOrder.before : SortOrder → Job → Job → Bool
  | ascending, a, b => a.precedes b
  | descending, a, b => b.precedes a

namespace SortOrder

variable {o : SortOrder}

theorem before_trans (hab : o.before a b = true) (hbc : o.before b c = true) :
    o.before a c = true := by
  cases o with
  | ascending => exact Job.precedes_trans hab hbc
  | descending => exact Job.precedes_trans hbc hab

theorem before_total (o : SortOrder) (a b : Job) : o.before a b = true ∨ o.before b a = true := by
  cases o with
  | ascending => exact Job.precedes_total a b
  | descending => exact Job.precedes_total b a

theorem before_antisymm (hab : o.before a b = true) (hba : o.before b a = true) : a.id = b.id := by
  cases o with
  | ascending => exact Job.precedes_antisymm hab hba
  | descending => exact (Job.precedes_antisymm hab hba).symm

/-- Jobs sorted in a direction. -/
theorem pairwise_mergeSort (o : SortOrder) (js : List Job) :
    (js.mergeSort o.before).Pairwise fun a b => o.before a b = true :=
  @List.pairwise_mergeSort _ o.before (fun _ _ _ => before_trans)
    (fun a b => (Bool.or_eq_true ..).mpr (o.before_total a b)) js

end SortOrder

/-! ## listings -/

namespace Query

variable {q : Query}

theorem ordered_perm (q : Query) (js : List Job) :
    (q.ordered js).Perm (js.filter q.filter.admits) := by
  unfold ordered
  cases q.order with
  | ascending => exact List.mergeSort_perm _ _
  | descending => exact (List.reverse_perm _).trans (List.mergeSort_perm _ _)

theorem ordered_pairwise (q : Query) (js : List Job) :
    (q.ordered js).Pairwise fun a b => q.order.before a b = true := by
  have hsorted := SortOrder.ascending.pairwise_mergeSort (js.filter q.filter.admits)
  unfold ordered
  cases q.order with
  | ascending => exact hsorted
  | descending => exact List.pairwise_reverse.mpr hsorted

/-- The matches of jobs with keys of their own have one order only. -/
theorem eq_ordered (hkeys : (js.map Job.id).Nodup) (hperm : ks.Perm (js.filter q.filter.admits))
    (hsorted : ks.Pairwise fun a b => q.order.before a b = true) : ks = q.ordered js := by
  refine List.Perm.eq_of_pairwise (fun a b ha hb hab hba => ?_) hsorted (q.ordered_pairwise js)
    (hperm.trans (q.ordered_perm js).symm)
  have ha : a ∈ js := (List.mem_filter.mp (hperm.mem_iff.mp ha)).1
  have hb : b ∈ js := (List.mem_filter.mp ((q.ordered_perm js).mem_iff.mp hb)).1
  exact List.inj_on_of_nodup_map hkeys ha hb (SortOrder.before_antisymm hab hba)

theorem window_map {α β : Type} (f : α → β) (offset : Nat) (limit : Option Nat) (xs : List α) :
    window offset limit (xs.map f) = (window offset limit xs).map f := by
  cases limit with
  | none => exact List.map_drop.symm
  | some n =>
    show ((xs.map f).drop offset).take n = ((xs.drop offset).take n).map f
    rw [← List.map_drop, List.map_take]

theorem mem_of_mem_window {α : Type} {offset : Nat} {limit : Option Nat} {xs : List α} {x : α}
    (h : x ∈ window offset limit xs) : x ∈ xs := by
  cases limit with
  | none => exact List.mem_of_mem_drop h
  | some n => exact List.mem_of_mem_drop (List.mem_of_mem_take h)

end Query

end JobEngine
