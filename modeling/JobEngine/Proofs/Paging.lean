import JobEngine.Proofs.Listing
import JobEngine.Proofs.Store.Effect

/-!
# A listing read page by page

Whoever reads a listing asks for a page, and for the next one as long as the page says that there
are more.

* `Job.Older`, `SortOrder.Ahead`   the strict order of a listing;
* `Query.select_perm`       a page does not depend on the order of the jobs that are listed;
* `Query.hasMore?_select`   what a page says of what follows it;
* `Memory.Reads`            the pages that are read, one after another;
* `Memory.exists_reads`     they come to an end, and are the matches cut in pieces;
* `pages_cover_the_listing`   the pages of a store, for every filter, order and limit.

A store has fewer rows than the counter of a page can count.
-/

namespace JobEngine

variable {a b j : Job} {js ks : List Job} {q : Query} {m : Memory}

/-! ## the strict order -/

/-- The job was created before the other one, or with it and under a smaller identifier. -/
def Job.Older (a b : Job) : Prop := a.created < b.created ∨ a.created = b.created ∧ a.id < b.id

theorem Job.older_of_precedes (h : a.precedes b = true) (hne : a.id ≠ b.id) : a.Older b := by
  unfold precedes at h
  rw [Bool.or_eq_true, Bool.and_eq_true, decide_eq_true_iff, decide_eq_true_iff,
    decide_eq_true_iff] at h
  rcases h with h | ⟨h, hle⟩
  · exact Or.inl h
  · refine Or.inr ⟨h, BitVec.lt_of_le_ne hle fun e => hne ?_⟩
    exact congrArg Uuid.mk e

/-- One job stands ahead of another in a listing of this direction. -/
def SortOrder.Ahead : SortOrder → Job → Job → Prop
  | ascending, a, b => a.Older b
  | descending, a, b => b.Older a

theorem SortOrder.ahead_of_before {o : SortOrder} (h : o.before a b = true) (hne : a.id ≠ b.id) :
    o.Ahead a b := by
  cases o with
  | ascending => exact Job.older_of_precedes h hne
  | descending => exact Job.older_of_precedes h hne.symm

namespace Query

theorem mem_ordered : j ∈ q.ordered js ↔ j ∈ js ∧ q.filter.admits j = true :=
  (q.ordered_perm js).mem_iff.trans List.mem_filter

theorem length_ordered (q : Query) (js : List Job) :
    (q.ordered js).length = (js.filter q.filter.admits).length :=
  (q.ordered_perm js).length_eq

theorem ordered_ahead (hkeys : (js.map Job.id).Nodup) :
    (q.ordered js).Pairwise q.order.Ahead := by
  have hids : ((q.ordered js).map Job.id).Nodup :=
    ((q.ordered_perm js).map Job.id).nodup_iff.mpr (hkeys.sublist (List.filter_sublist.map _))
  have hne : (q.ordered js).Pairwise fun a b => a.id ≠ b.id := List.pairwise_map.mp hids
  exact (q.ordered_pairwise js).imp₂ (fun _ _ => SortOrder.ahead_of_before) hne

/-- A page does not depend on the order of the jobs that are listed. -/
theorem select_perm (q : Query) (hkeys : (js.map Job.id).Nodup) (hperm : ks.Perm js) :
    q.select ks = q.select js := by
  have hordered : q.ordered ks = q.ordered js :=
    eq_ordered hkeys ((q.ordered_perm ks).trans (hperm.filter _)) (q.ordered_pairwise ks)
  unfold select
  rw [hordered]

/-! ## one page -/

theorem length_ordered_lt (hsize : js.length < UInt64.size) :
    (q.ordered js).length < UInt64.size :=
  Nat.lt_of_le_of_lt (length_ordered q js ▸ List.length_filter_le ..) hsize

theorem total_select (hsize : js.length < UInt64.size) :
    (q.select js).total.toNat = (q.ordered js).length :=
  UInt64.toNat_ofNat_of_lt' (length_ordered_lt hsize)

theorem length_window {α : Type} (offset : Nat) (limit : Option Nat) (xs : List α) :
    (window offset limit xs).length =
      limit.elim (xs.length - offset) fun n => min n (xs.length - offset) := by
  cases limit with
  | none => exact List.length_drop
  | some n => rw [Option.elim_some, ← List.length_drop, ← List.length_take]; rfl

/-- A page says whether its end is short of the number of matches; its sum is always a counter. -/
theorem hasMore?_select (hsize : js.length < UInt64.size) : (q.select js).hasMore? =
    some (q.limit.any fun n => decide (q.offset.toNat + n.toNat < (q.ordered js).length)) := by
  have hoffset : q.offset.toNat < UInt64.size := q.offset.toNat_lt
  have hfound : (q.ordered js).length < UInt64.size := length_ordered_lt hsize
  have hitems : (q.select js).items.length = _ :=
    length_window q.offset.toNat (q.limit.map UInt64.toNat) (q.ordered js)
  have hseen : (q.select js).offset.toNat + (q.select js).items.length < UInt64.size := by
    rw [hitems]
    show q.offset.toNat + _ < _
    cases q.limit <;> simp only [Option.map_none, Option.map_some, Option.elim] <;> omega
  unfold Page.hasMore?
  rw [if_pos hseen, hitems, total_select hsize]
  refine congrArg some (show decide (q.offset.toNat + _ < _) = _ from ?_)
  cases q.limit with
  | none =>
    simp only [Option.map_none, Option.elim_none, Option.any_none]
    exact decide_eq_false (by omega)
  | some n =>
    simp only [Option.map_some, Option.elim_some, Option.any_some]
    exact decide_eq_decide.mpr (by omega)

section
variable {n : UInt64}

theorem items_select (hlimit : q.limit = some n) :
    (q.select js).items = ((q.ordered js).drop q.offset.toNat).take n.toNat := by
  show window q.offset.toNat (q.limit.map UInt64.toNat) _ = _
  rw [hlimit]
  rfl

theorem hasMore?_of_limit (hsize : js.length < UInt64.size) (hlimit : q.limit = some n) :
    (q.select js).hasMore? =
      some (decide (q.offset.toNat + n.toNat < (q.ordered js).length)) := by
  rw [hasMore?_select hsize, hlimit, Option.any_some]

/-- The offset behind a page that is followed by another is a counter. -/
theorem toNat_offset_add (hsize : js.length < UInt64.size)
    (hlt : q.offset.toNat + n.toNat < (q.ordered js).length) :
    (q.offset + n).toNat = q.offset.toNat + n.toNat := by
  have hfound : (q.ordered js).length < UInt64.size := length_ordered_lt hsize
  rw [UInt64.toNat_add, Nat.mod_eq_of_lt (Nat.lt_trans hlt hfound)]

end

end Query

/-! ## page by page -/

namespace Memory

/-- The pages that are read from a query on, until one says that there are no more. -/
inductive Reads (m : Memory) : Query → List Page → Prop
  | last {q : Query} {p : Page} : m.perform (.list q) = (some (.ok p), m) →
    p.hasMore? = some false → Reads m q [p]
  | more {q : Query} {n : UInt64} {p : Page} {ps : List Page} :
    m.perform (.list q) = (some (.ok p), m) → p.hasMore? = some true → q.limit = some n →
    Reads m { q with offset := q.offset + n } ps → Reads m q (p :: ps)

theorem perform_list {p : Page} (h : m.perform (.list q) = (some (.ok p), m)) :
    p = q.select m.rows.values :=
  (Except.ok.inj (Option.some.inj (Prod.mk.inj h).1)).symm

theorem Reads.unique {ps ps' : List Page} (h : m.Reads q ps) (h' : m.Reads q ps') : ps' = ps := by
  induction h generalizing ps' with
  | last hp hno =>
    obtain rfl := perform_list hp
    cases h' with
    | last hp' _ => rw [perform_list hp']
    | more hp' hmore =>
      rw [perform_list hp', hno] at hmore
      cases hmore
  | more hp hmore hlimit _ ih =>
    obtain rfl := perform_list hp
    cases h' with
    | last hp' hno =>
      rw [perform_list hp', hmore] at hno
      cases hno
    | more hp' _ hlimit' h' =>
      obtain rfl := Option.some.inj (hlimit.symm.trans hlimit')
      rw [perform_list hp', ih h']

/-- How many pages of `n` jobs are read when so many matches are left. -/
def pageCount (n left : Nat) : Nat := max 1 ((left + n - 1) / n)

theorem pageCount_of_le {n left : Nat} (hn : 0 < n) (h : left ≤ n) : pageCount n left = 1 := by
  have hlt : (left + n - 1) / n < 2 := Nat.div_lt_of_lt_mul (by omega)
  unfold pageCount
  omega

theorem pageCount_add {n left : Nat} (hn : 0 < n) (h : 0 < left) :
    pageCount n (left + n) = pageCount n left + 1 := by
  have hpos : 0 < (left + n - 1) / n := Nat.div_pos (by omega) hn
  have hnext : (left + n + n - 1) / n = (left + n - 1) / n + 1 := by
    rw [← Nat.add_div_right _ hn]
    congr 1
    omega
  unfold pageCount
  omega

/-- Reading comes to an end.  The pages are one limit apart, and they are the matches from the
offset on, cut in pieces. -/
theorem exists_reads {n : UInt64} (hsize : m.rows.values.length < UInt64.size) (hn : 0 < n.toNat)
    (hlimit : q.limit = some n) :
    ∃ ps, m.Reads q ps ∧
      ps.length = pageCount n.toNat ((q.ordered m.rows.values).length - q.offset.toNat) ∧
      ps.flatMap Page.items = (q.ordered m.rows.values).drop q.offset.toNat ∧
      ∀ (i : Nat) (p : Page), ps[i]? = some p → ∃ offset : UInt64,
        offset.toNat = q.offset.toNat + i * n.toNat ∧
          p = { q with offset }.select m.rows.values := by
  -- on the number of matches that are left
  induction hleft : (q.ordered m.rows.values).length - q.offset.toNat using Nat.strongRecOn
    generalizing q with
  | ind left ih =>
  have hmore := Query.hasMore?_of_limit hsize hlimit
  have hitems : (q.select m.rows.values).items = _ := Query.items_select hlimit
  rcases Nat.lt_or_ge (q.offset.toNat + n.toNat) (q.ordered m.rows.values).length with hlt | hge
  · rw [decide_eq_true hlt] at hmore
    have hoffset := Query.toNat_offset_add hsize hlt
    obtain ⟨ps, hreads, hlength, hpages, hoffsets⟩ :=
      ih (left - n.toNat) (by omega) (q := { q with offset := q.offset + n }) hlimit (by
        show (q.ordered m.rows.values).length - (q.offset + n).toNat = _
        omega)
    refine ⟨_, .more rfl hmore hlimit hreads, ?_, ?_, fun i p hp => ?_⟩
    · rw [List.length_cons, hlength, ← pageCount_add hn (by omega), Nat.sub_add_cancel (by omega)]
    · have hrest : ps.flatMap Page.items =
          (q.ordered m.rows.values).drop (q.offset + n).toNat := hpages
      rw [List.flatMap_cons, hitems, hrest, hoffset, ← List.drop_drop, List.take_append_drop]
    · cases i with
      | zero =>
        obtain rfl := Option.some.inj hp
        exact ⟨q.offset, by omega, rfl⟩
      | succ i =>
        obtain ⟨offset, hat, rfl⟩ := hoffsets i p hp
        refine ⟨offset, ?_, rfl⟩
        rw [hat, Nat.succ_mul]
        show (q.offset + n).toNat + _ = _
        omega
  · rw [decide_eq_false (Nat.not_lt.mpr hge)] at hmore
    refine ⟨_, .last rfl hmore, ?_, ?_, fun i p hp => ?_⟩
    · rw [List.length_singleton, pageCount_of_le hn (by omega)]
    · rw [List.flatMap_singleton, hitems, List.take_of_length_le]
      rw [List.length_drop]
      omega
    · cases i with
      | zero =>
        obtain rfl := Option.some.inj hp
        exact ⟨q.offset, by omega, rfl⟩
      | succ i => cases hp

theorem values_perm {m' : Memory} (hm : m.Coherent) (hm' : m'.Coherent)
    (hrows : ∀ id, m'.rows.get? id = m.rows.get? id) : m'.rows.values.Perm m.rows.values :=
  (List.perm_ext_iff_of_nodup hm'.nodup_ids.of_map hm.nodup_ids.of_map).mpr fun j => by
    rw [hm'.mem_values, hm.mem_values, hrows]

/-- **Reading page by page loses nothing and repeats nothing.**  Take a store behind any run, a
filter, a direction and a limit that is not zero.  Reading ends, always with the same pages: as many
as it takes for the matches, and one if there are none.  The page at each multiple of the limit is
read, and in a row they show what the listing without a limit shows: the rows that match, in the
strict order of the direction.  Each page of any query says how many rows match, and whether more
follow it; and it depends on the rows alone, not on the order in which they came or are listed. -/
theorem pages_cover_the_listing {wait : Nat} {xs : List Event} (h : Trace wait {} xs m)
    (hsize : m.rows.length < UInt64.size) (f : Filter) (o : SortOrder) {n : UInt64} (hn : 1 ≤ n) :
    (∃ whole pages,
      m.perform (.list { filter := f, order := o, limit := none }) = (some (.ok whole), m) ∧
      (∀ ps, m.Reads { filter := f, order := o, limit := some n } ps ↔ ps = pages) ∧
      pages.length = max 1 ((whole.total.toNat + n.toNat - 1) / n.toNat) ∧
      (∀ i p, pages[i]? = some p → ∃ offset : UInt64, offset.toNat = i * n.toNat ∧
        m.perform (.list { filter := f, order := o, offset, limit := some n }) =
          (some (.ok p), m)) ∧
      pages.flatMap Page.items = whole.items ∧
      (∀ j, j ∈ whole.items ↔ m.rows.get? j.id = some j ∧ f.admits j = true) ∧
      whole.items.Pairwise o.Ahead) ∧
    (∀ q p, m.perform (.list q) = (some (.ok p), m) →
      p.total.toNat = (m.rows.values.filter q.filter.admits).length ∧
        ∃ more, p.hasMore? = some more) ∧
    (∀ (q : Query) (js : List Job), js.Perm m.rows.values →
      q.select js = q.select m.rows.values) ∧
    ∀ wait' xs' m', Trace wait' {} xs' m' → (∀ id, m'.rows.get? id = m.rows.get? id) →
      ∀ q, (m'.perform (.list q)).1 = (m.perform (.list q)).1 := by
  have hm := h.coherent quiet_empty.coherent
  have hcount : m.rows.values.length < UInt64.size := by
    rwa [Table.values, List.length_map]
  have hlimit : 0 < n.toNat := UInt64.le_iff_toNat_le.mp hn
  refine ⟨?pages, fun q p hp => ?page, fun q js => q.select_perm hm.nodup_ids,
    fun wait' xs' m' h' hrows q => ?rows⟩
  case pages =>
    obtain ⟨pages, hreads, hlength, hitems, hoffsets⟩ := exists_reads hcount hlimit
      (q := { filter := f, order := o, limit := some n }) rfl
    refine ⟨_, pages, rfl, fun ps => ⟨hreads.unique, fun e => e ▸ hreads⟩, ?_, fun i p hp => ?_,
      hitems, fun j => ?_, Query.ordered_ahead (q := ⟨f, o, 0, none⟩) hm.nodup_ids⟩
    · rw [hlength, Query.total_select hcount]
      rfl
    · obtain ⟨offset, hat, rfl⟩ := hoffsets i p hp
      exact ⟨offset, hat.trans (Nat.zero_add _), rfl⟩
    · rw [← hm.mem_values]
      exact Query.mem_ordered
  case page =>
    obtain rfl := perform_list hp
    exact ⟨(Query.total_select hcount).trans (Query.length_ordered ..), _,
      Query.hasMore?_select hcount⟩
  case rows =>
    have hperm := values_perm hm (h'.coherent quiet_empty.coherent) hrows
    show some (Except.ok (q.select m'.rows.values)) = some (Except.ok (q.select m.rows.values))
    rw [q.select_perm hm.nodup_ids hperm]

/-- Three jobs are inserted, the last one first. -/
def threeInserts : List StoreCall :=
  [.insert { sample with id := ⟨3#128⟩ }, .insert { sample with id := ⟨2#128⟩ }, .insert sample]

theorem three_jobs_in_two_pages : ∃ xs m pages, Trace 0 {} xs m ∧ m.rows.length < UInt64.size ∧
    m.Reads { limit := some 2 } pages ∧ pages.length = 2 ∧
    (pages.flatMap Page.items).Pairwise SortOrder.descending.Ahead := by
  obtain ⟨xs, m, h, hrows⟩ := trace_of_serveAll threeInserts
    (fun _ m => (m.rows.length, (m.rows.values.filter (Filter.admits {})).length))
    (v := (3, 3)) (by decide)
  obtain ⟨hthree, hmatches⟩ := Prod.mk.inj hrows
  have hsize : m.rows.length < UInt64.size := hthree ▸ by decide
  obtain ⟨⟨whole, pages, hwhole, hreads, hlength, -, hitems, -, hahead⟩, htotal, -⟩ :=
    pages_cover_the_listing h hsize {} .descending (n := 2) (by decide)
  have hthree : whole.total.toNat = 3 := (htotal _ _ hwhole).1.trans hmatches
  refine ⟨xs, m, pages, h, hsize, (hreads pages).mpr rfl, ?_, hitems ▸ hahead⟩
  rw [hlength, hthree]
  rfl

end Memory

end JobEngine
