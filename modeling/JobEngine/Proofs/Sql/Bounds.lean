import JobEngine.Proofs.Conduct
import JobEngine.Proofs.Paging
import JobEngine.Proofs.Sql.Listing

/-!
# The bounds of a page on their way to a database

A query counts with 64 bits and no sign, a database with 64 bits and a sign.  The bounds are bound
as they are, bit by bit, so that a number of the upper half becomes a negative one.

* `Datum.ofLong_of_lt`, `Datum.exists_ofLong_neg`   what becomes of a number;
* `Sql.asks_for_its_page`        all that a listing asks;
* `Sql.Arrives`, `Sql.Bounces`   what becomes of the bounds, at every table;
* `Database.run_listJobs_select`, `Database.run_listJobs_refused`   what becomes of the listing;
* `bounds_arrive_if_they_fit`      both, for every query;
* `limit_without_end_is_refused`   the largest limit of all.
-/

namespace JobEngine

open Sql

variable {d : Database} {m : Memory} {q : Query} {js : List Job}

/-! ## numbers -/

namespace Sql

namespace Datum

variable {n : UInt64}

theorem ofLong_of_lt (h : 2 * n.toNat < UInt64.size) : ofLong n = .int n.toNat := by
  unfold ofLong
  rw [if_pos h]

/-- A number of the upper half becomes a negative one. -/
theorem exists_ofLong_neg (h : ¬ 2 * n.toNat < UInt64.size) : ∃ k < 0, ofLong n = .int k := by
  have hn : n.toNat < UInt64.size := n.toNat_lt
  refine ⟨(n.toNat : Int) - UInt64.size, by omega, ?_⟩
  unfold ofLong
  rw [if_neg h]

theorem span?_neg {k : Int} (h : k < 0) : (int k).span? = none := if_pos h

theorem span?_ofLong_eq_none (h : ¬ 2 * n.toNat < UInt64.size) : (ofLong n).span? = none := by
  obtain ⟨k, hk, hn⟩ := exists_ofLong_neg h
  rw [hn, span?_neg hk]

/-- No number, or one that is not negative. -/
def Unsigned (v : Datum) : Prop := ∀ k, v = .int k → 0 ≤ k

theorem unsigned_ofLong : (ofLong n).Unsigned ↔ 2 * n.toNat < UInt64.size := by
  constructor
  · intro h
    by_contra hlt
    obtain ⟨k, hk, hn⟩ := exists_ofLong_neg hlt
    exact absurd (h k hn) (Int.not_le.mpr hk)
  · intro h k hk
    obtain rfl := Datum.int.inj ((ofLong_of_lt h).symm.trans hk)
    exact Int.natCast_nonneg _

end Datum

/-! ## what is bound -/

/-- The parameters of a page: those of its filter, its limit and its offset. -/
def pageParams (q : Query) : List Datum :=
  filterParams q.filter ++ [.ofOption .ofLong q.limit, .ofLong q.offset]

theorem argument_limit (q : Query) : argument (pageParams q) 5 = .ofOption .ofLong q.limit := rfl

theorem argument_offset (q : Query) : argument (pageParams q) 6 = .ofLong q.offset := rfl

/-- One rule for all that a program asks. -/
def always (P : Request → Prop) : Conduct Server Unit := ⟨fun _ => P, fun _ _ _ => ()⟩

/-- Whatever it is answered, a listing asks for no page but its own. -/
theorem asks_for_its_page {P : Request → Prop} (hcount : P ⟨.count byFilter, filterParams q.filter⟩)
    (hpage : P ⟨.page byFilter q.order 5 6, pageParams q⟩) :
    (listJobs q).Keeps (always P) (fun _ _ => True) () := by
  unfold listJobs
  refine ⟨hcount, fun counted => ?_⟩
  dsimp only [Program.bind]
  split
  · trivial
  · refine ⟨hpage, fun found => ?_⟩
    dsimp only [Program.bind]
    split <;> trivial

end Sql

/-- The bound that a database looks at first, of those that do not fit. -/
def Query.unfit (q : Query) : Breach :=
  if 2 * q.offset.toNat < UInt64.size then .limit else .offset

namespace Sql

/-- The bounds of a page reach the database: neither is negative, and every table shows the rows
that the numbers of the query cut out of the ordered matches. -/
def Arrives (q : Query) (r : Request) : Prop :=
  ∀ cs o limit offset, r.statement = .page cs o limit offset →
    (argument r.params limit).Unsigned ∧ (argument r.params offset).Unsigned ∧
      ∀ d : Database, d.answer r = some (.rows (d.shown q), d)

/-- A bound of a page is negative, and every table refuses the page for it. -/
def Bounces (q : Query) (r : Request) : Prop :=
  ∀ cs o limit offset, r.statement = .page cs o limit offset →
    ¬((argument r.params limit).Unsigned ∧ (argument r.params offset).Unsigned) ∧
      ∀ d : Database, d.answer r = some (d.refuse q.unfit)

theorem unsigned_limit : (Datum.ofOption .ofLong q.limit).Unsigned ↔
    ∀ n, q.limit = some n → 2 * n.toNat < UInt64.size := by
  cases q.limit with
  | none => exact ⟨fun _ _ => nofun, fun _ _ => nofun⟩
  | some n =>
    refine Datum.unsigned_ofLong.trans ⟨fun h k hk => ?_, fun h => h n rfl⟩
    exact Option.some.inj hk ▸ h

/-- The bounds that are bound are not negative exactly if those of the query fit. -/
theorem unsigned_iff :
    (Datum.ofOption .ofLong q.limit).Unsigned ∧ (Datum.ofLong q.offset).Unsigned ↔
      q.FitsLong := by
  rw [unsigned_limit, Datum.unsigned_ofLong]
  exact ⟨fun ⟨hlimit, hoffset⟩ => ⟨hoffset, hlimit⟩, fun h => ⟨h.limit, h.offset⟩⟩

theorem span?_limit (h : q.FitsLong) :
    (Datum.ofOption .ofLong q.limit).span? = some (q.limit.map UInt64.toNat) := by
  cases hq : q.limit with
  | none => rfl
  | some n => exact span?_ofLong (h.limit n hq)

namespace Database

theorem page_shown (d : Database) (h : q.FitsLong) :
    d.page byFilter q.order 5 6 (pageParams q) = (.rows (d.shown q), d) := by
  have hskip : (argument (pageParams q) 6).span? = some (some q.offset.toNat) :=
    span?_ofLong h.offset
  have hmost : (argument (pageParams q) 5).span? = some (q.limit.map UInt64.toNat) :=
    span?_limit h
  rw [page_of_span? hskip hmost, pageParams, d.found_byFilter]
  rfl

/-- Every table refuses bounds of which one does not fit; it looks at the offset first. -/
theorem page_refused (d : Database) (h : ¬ q.FitsLong) :
    d.page byFilter q.order 5 6 (pageParams q) = d.refuse q.unfit := by
  unfold page Query.unfit
  rw [argument_offset, argument_limit]
  by_cases hoffset : 2 * q.offset.toNat < UInt64.size
  · -- then it is the limit that does not fit
    obtain ⟨n, hn, hlimit⟩ : ∃ n, q.limit = some n ∧ ¬ 2 * n.toNat < UInt64.size := by
      by_contra hno
      exact h ⟨hoffset, fun n hn => by_contra fun hlt => hno ⟨n, hn, hlt⟩⟩
    have hspan : (Datum.ofOption .ofLong q.limit).span? = none :=
      hn ▸ Datum.span?_ofLong_eq_none hlimit
    rw [span?_ofLong hoffset, hspan, if_pos hoffset]
  · rw [Datum.span?_ofLong_eq_none hoffset, if_neg hoffset]

end Database

theorem arrives (h : q.FitsLong) :
    (listJobs q).Keeps (always (Arrives q)) (fun _ _ => True) () := by
  refine asks_for_its_page (fun _ _ _ _ => nofun) fun cs o limit offset hs => ?_
  obtain ⟨rfl, rfl, rfl, rfl⟩ := Statement.page.inj hs
  obtain ⟨hlimit, hoffset⟩ := unsigned_iff.mpr h
  exact ⟨hlimit, hoffset, fun d => congrArg some (d.page_shown h)⟩

theorem bounces (h : ¬ q.FitsLong) :
    (listJobs q).Keeps (always (Bounces q)) (fun _ _ => True) () := by
  refine asks_for_its_page (fun _ _ _ _ => nofun) fun cs o limit offset hs => ?_
  obtain ⟨rfl, rfl, rfl, rfl⟩ := Statement.page.inj hs
  exact ⟨mt unsigned_iff.mp h, fun d => congrArg some (d.page_refused h)⟩

end Sql

/-! ## listings -/

theorem Query.ordered_eq_mergeSort (hkeys : (js.map Job.id).Nodup) :
    q.ordered js = (js.filter q.filter.admits).mergeSort q.order.before :=
  (eq_ordered hkeys (List.mergeSort_perm _ _) (q.order.pairwise_mergeSort _)).symm

namespace Sql.Database

theorem keys_of_rows (hjs : d.rows = js.map Job.row) : (js.map Job.id).Nodup := by
  have hkeyed := d.keyed
  rw [hjs, ids_row] at hkeyed
  exact hkeyed.of_map _

/-- A table shows what a memory of its jobs shows, if each of them has an owner. -/
theorem run_listJobs_select (hq : q.FitsLong) (hjs : d.rows = js.map Job.row)
    (howned : ∀ j ∈ js, Text.isBlank j.project.name = false) :
    d.run (listJobs q) = some (.ok (q.select js), d) := by
  have hordered := Query.ordered_eq_mergeSort (q := q) (keys_of_rows hjs)
  have hshown : d.shown q = (q.select js).items.map Job.row := by
    rw [shown_rows hjs, ← hordered]
    rfl
  have htotal : (d.found byFilter (filterParams q.filter)).length = (q.ordered js).length := by
    rw [found_rows hjs, List.length_map, q.length_ordered]
  have hread : ((q.select js).items.any fun j => Text.isBlank j.project.name) = false :=
    List.any_eq_false.mpr fun j hj => by
      rw [howned j (Query.mem_ordered.mp (Query.mem_of_mem_window hj)).1]
      exact Bool.false_ne_true
  rw [run_listJobs hq, hshown, mapM_ofRow?, hread, htotal]
  rfl

/-- A page that is refused is an error of the storage. -/
theorem run_listJobs_refused (d : Database) (hq : ¬ q.FitsLong) :
    d.run (listJobs q) =
      some (.error (.storage ("database error in list_jobs: " ++ d.wording q.unfit)), d) := by
  have hpage : d.answer ⟨.page byFilter q.order 5 6, pageParams q⟩ = some (d.refuse q.unfit) :=
    congrArg some (d.page_refused hq)
  have hrefused : (d.refuse q.unfit).1.orFail "list_jobs" manyJobs =
      .error (.storage ("database error in list_jobs: " ++ d.wording q.unfit)) := by
    unfold Query.unfit
    split <;> rfl
  show d.run ((send (.page byFilter q.order 5 6) (pageParams q)).bind _) = _
  rw [run_send, hpage, Option.bind_some]
  dsimp only
  rw [hrefused]
  rfl

end Sql.Database

/-- **The bounds of a page arrive exactly if they fit.**  Let a database and a memory hold the same
jobs.  The memory shows the page for every query.  If the offset and the limit are below 2⁶³, what
is bound to LIMIT and OFFSET is not negative, from every table it cuts what the query's own numbers
cut, and the listing is the page of the memory.  Otherwise one of the two is bound as a negative
number, every table refuses the page for it, and the listing fails with an error of the storage. -/
theorem bounds_arrive_if_they_fit (h : d.Mirrors m) (q : Query) :
    m.perform (.list q) = (some (.ok (q.select m.rows.values)), m) ∧
      (q.FitsLong →
        (listJobs q).Keeps (always (Arrives q)) (fun _ _ => True) () ∧
          d.run (listJobs q) = some (.ok (q.select m.rows.values), d)) ∧
      (¬ q.FitsLong →
        (listJobs q).Keeps (always (Bounces q)) (fun _ _ => True) () ∧
          d.run (listJobs q) = some
            (.error (.storage ("database error in list_jobs: " ++ d.wording q.unfit)), d)) := by
  refine ⟨rfl, fun hq => ⟨arrives hq, ?_⟩, fun hq => ⟨bounces hq, d.run_listJobs_refused hq⟩⟩
  obtain ⟨js, hjs, hperm⟩ := h.exists_perm
  rw [← q.select_perm h.keys hperm]
  exact Database.run_listJobs_select hq hjs fun j hj => h.owned j (hperm.mem_iff.mp hj)

/-- Everything up to a number of jobs. -/
def Query.upTo (n : UInt64) : Query := { limit := some n }

theorem Query.ordered_upTo (n : UInt64) : (upTo n).ordered [Memory.sample] = [Memory.sample] := by
  have hkeys : ([Memory.sample].map Job.id).Nodup := List.nodup_singleton _
  exact (eq_ordered hkeys (List.Perm.refl _) (List.pairwise_singleton _ _)).symm

theorem bounds_that_fit_and_do_not :
    let d : Database := { rows := [Memory.sample.row] }
    let m : Memory := { rows := [(Memory.sample.id, Memory.sample)] }
    d.Mirrors m ∧ (Query.upTo 9223372036854775807).FitsLong ∧
      ¬ (Query.upTo 9223372036854775808).FitsLong ∧
      d.run (listJobs (.upTo 9223372036854775807)) =
        some (.ok ⟨[Memory.sample], 1, 0, some 9223372036854775807⟩, d) ∧
      d.run (listJobs (.upTo 9223372036854775808)) =
        some (.error (.storage "database error in list_jobs: 2201W"), d) := by
  intro d m
  have hmirrors : d.Mirrors m := ⟨List.Perm.refl _, by decide⟩
  have hfits : (Query.upTo 9223372036854775807).FitsLong :=
    ⟨by decide, fun n hn => Option.some.inj hn ▸ by decide⟩
  have hlong : ¬ (Query.upTo 9223372036854775808).FitsLong := fun h =>
    absurd (h.limit _ rfl) (by decide)
  have hpage : (Query.upTo 9223372036854775807).select m.rows.values =
      ⟨[Memory.sample], 1, 0, some 9223372036854775807⟩ := by
    unfold Query.select
    rw [show m.rows.values = [Memory.sample] from rfl, Query.ordered_upTo]
    rfl
  obtain ⟨-, hshows, -⟩ := bounds_arrive_if_they_fit hmirrors (.upTo 9223372036854775807)
  obtain ⟨-, -, hrefuses⟩ := bounds_arrive_if_they_fit hmirrors (.upTo 9223372036854775808)
  exact ⟨hmirrors, hfits, hlong, hpage ▸ (hshows hfits).2, (hrefuses hlong).2⟩

/-- The largest limit, for every job there is: the memory shows them, the database gets -1. -/
theorem limit_without_end_is_refused :
    let d : Database := { rows := [Memory.sample.row] }
    let m : Memory := { rows := [(Memory.sample.id, Memory.sample)] }
    let q : Query := .upTo 18446744073709551615
    d.Mirrors m ∧ argument (pageParams q) 5 = .int (-1) ∧
      m.perform (.list q) =
        (some (.ok ⟨[Memory.sample], 1, 0, some 18446744073709551615⟩), m) ∧
      d.run (listJobs q) =
        some (.error (.storage "database error in list_jobs: 2201W"), d) := by
  intro d m q
  have hlong : ¬ q.FitsLong := fun h => absurd (h.limit _ rfl) (by decide)
  refine ⟨⟨List.Perm.refl _, by decide⟩, by decide, ?_, d.run_listJobs_refused hlong⟩
  show (some (Except.ok (q.select [Memory.sample])), m) = _
  unfold Query.select
  rw [Query.ordered_upTo]
  rfl

end JobEngine
