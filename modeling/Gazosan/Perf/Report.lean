import Gazosan.Perf.TimerRecords
import Gazosan.Library.Outline

/-!
# The timer report

`print_timer_records` stops and links the records and prints them as an
outline: a record, and indented below it its children, sorted by start.  The
sort is not stable, so the model takes any sort function.  Printing leaves the
children sorted in the records, so the state is passed along.

Pointers could be cyclic, so `printRec` has fuel, and `printRec_spec` says that
on a forest the number of records is enough.  The rows are a depth-first walk
in the sense of `Outline.Walk`, and the properties of the report are read off
from it.
-/

namespace Gazosan

/-- `std::ranges::sort` by a key.  Equal keys may come in any order. -/
structure UnstableSort where
  sort : (Nat → Int) → List Nat → List Nat
  perm : ∀ key l, (sort key l).Perm l
  sorted : ∀ key l, (sort key l).Pairwise fun a b => key a ≤ key b

/-- A line of the report: which record it shows, its indentation, and what is
printed of the record. -/
structure Row where
  index : Nat
  indent : Nat
  user : Int
  sys : Int
  start : Int
  finish : Int
  name : String
deriving DecidableEq, Repr

/-- The line of a record.  It does not show the children. -/
def TimerRecord.row (record : TimerRecord) (index indent : Nat) : Row :=
  ⟨index, indent, record.user, record.sys, record.start, record.finish, record.name⟩

/-- The first line of the report. -/
def reportHeader : String := "     User   System     Real  Name\n"

/-- What is printed: the first line and the rows. -/
structure Report where
  header : String
  rows : List Row
deriving DecidableEq, Repr

/-- Print one after another, passing the records along. -/
def printAll (printOne : List TimerRecord → Nat → Option (List TimerRecord × List Row)) :
    List TimerRecord → List Nat → Option (List TimerRecord × List Row)
  | records, [] => some (records, [])
  | records, i :: is => do
      let (records, rows) ← printOne records i
      let (records, more) ← printAll printOne records is
      return (records, rows ++ more)

section

variable (s : UnstableSort)

/-- `print_rec`: print the record, sort its children in place, print them. -/
def printRec : Nat → List TimerRecord → Nat → Nat → Option (List TimerRecord × List Row)
  | 0, _, _, _ => none
  | fuel + 1, records, i, indent => do
      let record ← records[i]?
      let children := s.sort (startOf records) record.children
      let records := records.set i { record with children }
      let (records, rows) ←
        printAll (fun records child => printRec fuel records child (indent + 1)) records children
      return (records, record.row i indent :: rows)

/-- The last loop of `print_timer_records`. -/
def printRoots (records : List TimerRecord) : Option (List TimerRecord × List Row) :=
  printAll (fun rs i => if (parentOf rs i).isSome then some (rs, []) else
    printRec s records.length rs i 0) records (List.range records.length)

/-- `print_timer_records`. -/
def printTimerRecords (readings : Nat → Reading) (records : List TimerRecord) :
    Option (List TimerRecord × Report) := do
  let records := adoptAll (stopAll readings records)
  let (records, rows) ← printRoots s records
  return (records, ⟨reportHeader, rows⟩)

end

/-! ## Printing reorders children -/

/-- A record without its list of children. -/
def TimerRecord.bare (record : TimerRecord) : TimerRecord := { record with children := [] }

/-- The same records up to the order of the children. -/
structure Reordered (base records : List TimerRecord) : Prop where
  bare : records.map TimerRecord.bare = base.map TimerRecord.bare
  children : ∀ i, (childrenOf records i).Perm (childrenOf base i)

theorem Reordered.refl (records : List TimerRecord) : Reordered records records :=
  ⟨rfl, fun _ => .refl _⟩

section

variable {base records : List TimerRecord} (h : Reordered base records)
include h

theorem Reordered.getElem? (i : Nat) :
    records[i]?.map TimerRecord.bare = base[i]?.map TimerRecord.bare := by
  rw [← List.getElem?_map, h.bare, List.getElem?_map]

theorem Reordered.length : records.length = base.length := by
  simpa using congrArg List.length h.bare

theorem Reordered.parentOf (i : Nat) : parentOf records i = parentOf base i := by
  have hp : ∀ rs : List TimerRecord, Gazosan.parentOf rs i =
      (rs[i]?.map TimerRecord.bare).bind (·.parent) := by
    intro rs
    rw [Gazosan.parentOf, Option.bind_map]
    rfl
  rw [hp, hp, h.getElem? i]

theorem Reordered.startOf : startOf records = startOf base := by
  funext i
  have hs : ∀ rs : List TimerRecord, Gazosan.startOf rs i =
      ((rs[i]?.map TimerRecord.bare).map (·.start)).getD 0 := by
    intro rs
    rw [Gazosan.startOf, Option.map_map]
    rfl
  rw [hs, hs, h.getElem? i]

theorem Reordered.forest (hf : Forest base) : Forest records :=
  hf.congr h.parentOf h.children

theorem Reordered.trans {next : List TimerRecord} (h' : Reordered records next) :
    Reordered base next :=
  ⟨h'.bare.trans h.bare, fun i => (h'.children i).trans (h.children i)⟩

end

/-- Sorting the children of one record. -/
theorem reordered_set {records : List TimerRecord} {i : Nat} {record : TimerRecord}
    (hr : records[i]? = some record) {children : List Nat} (hp : children.Perm record.children) :
    Reordered records (records.set i { record with children }) := by
  have hi := (List.getElem?_eq_some_iff.mp hr).1
  constructor
  · apply List.ext_getElem?
    intro k
    rw [List.getElem?_map, List.getElem?_map]
    by_cases hk : i = k
    · subst hk
      rw [List.getElem?_set_self hi, hr]
      rfl
    · rw [List.getElem?_set_ne hk]
  · intro k
    by_cases hk : i = k
    · subst hk
      simpa [childrenOf, List.getElem?_set_self hi, hr] using hp
    · rw [childrenOf, List.getElem?_set_ne hk, childrenOf]

/-! ## The walk -/

/-- The node and the depth that a row shows. -/
def Row.entry (row : Row) : Nat × Nat := (row.index, row.indent)

/-- The orders in which the children of a record may be printed. -/
def ChildOrder (base : List TimerRecord) (i : Nat) (children : List Nat) : Prop :=
  children.Perm (childrenOf base i) ∧
    children.Pairwise fun a b => startOf base a ≤ startOf base b

/-- A row shows the record it names. -/
def Row.Shows (base : List TimerRecord) (row : Row) : Prop :=
  ∃ record, base[row.index]? = some record ∧ row = record.row row.index row.indent

/-- What a call prints: a walk over `is`, and rows that show their records. -/
structure Prints (base : List TimerRecord) (is : List Nat) (indent : Nat)
    (result : Option (List TimerRecord × List Row)) : Prop where
  ok : ∃ records rows, result = some (records, rows) ∧ Reordered base records ∧
    Outline.Walk (ChildOrder base) is indent (rows.map Row.entry) ∧ ∀ row ∈ rows, row.Shows base

/-- A loop prints what its rounds print, one after another. -/
theorem printAll_spec {base : List TimerRecord} {indent : Nat} {visits : Nat → List Nat}
    {printOne : List TimerRecord → Nat → Option (List TimerRecord × List Row)} :
    ∀ {is : List Nat}, (∀ records i, i ∈ is → Reordered base records →
        Prints base (visits i) indent (printOne records i)) →
      ∀ {records : List TimerRecord}, Reordered base records →
        Prints base (is.flatMap visits) indent (printAll printOne records is)
  | [], _, records, hr => ⟨records, [], rfl, hr, .nil, nofun⟩
  | i :: is, hone, records, hr => by
      obtain ⟨records₁, rows₁, h₁, hr₁, hwalk₁, hrows₁⟩ := hone records i List.mem_cons_self hr
      obtain ⟨records₂, rows₂, h₂, hr₂, hwalk₂, hrows₂⟩ :=
        printAll_spec (fun rs j hj => hone rs j (List.mem_cons_of_mem i hj)) hr₁
      refine ⟨records₂, rows₁ ++ rows₂, ?_, hr₂, ?_, ?_⟩
      · simp [printAll, h₁, h₂]
      · rw [List.map_append, List.flatMap_cons]
        exact hwalk₁.append hwalk₂
      · intro row hrow
        rcases List.mem_append.mp hrow with hrow | hrow
        · exact hrows₁ row hrow
        · exact hrows₂ row hrow

/-- On a forest the recursion ends: a child has a larger index than its parent. -/
theorem printRec_spec (s : UnstableSort) {base : List TimerRecord} (hf : Forest base) :
    ∀ {fuel : Nat} {records : List TimerRecord} {i : Nat} (indent : Nat), Reordered base records →
      i < base.length → base.length ≤ fuel + i →
      Prints base [i] indent (printRec s fuel records i indent)
  | 0, _, i, _, _, hi, hfuel => by omega
  | fuel + 1, records, i, indent, hr, hi, hfuel => by
      have hlt : i < records.length := by rwa [hr.length]
      have hrecord : records[i]? = some records[i] := List.getElem?_eq_getElem hlt
      have hchildren : childrenOf records i = records[i].children := by
        simp [childrenOf, hrecord]
      let children := s.sort (startOf records) records[i].children
      have hperm : children.Perm (childrenOf base i) :=
        (s.perm _ _).trans (hchildren ▸ hr.children i)
      have hset := hr.trans (reordered_set hrecord (s.perm (startOf records) records[i].children))
      have hprint : Prints base (children.flatMap fun c => [c]) (indent + 1)
          (printAll (fun records child => printRec s fuel records child (indent + 1))
            (records.set i { records[i] with children }) children) := by
        refine printAll_spec ?_ hset
        intro rs c hc hrs
        have hparent := hf.parentOf_of_mem (hperm.mem_iff.mp hc)
        have hci := hf.parent_lt c i hparent
        exact printRec_spec s hf (indent + 1) hrs (lt_length_of_parentOf hparent) (by omega)
      obtain ⟨records', rows, h, hr', hwalk, hrows⟩ := hprint
      rw [List.flatMap_singleton'] at hwalk
      refine ⟨records', records[i].row i indent :: rows, ?_, hr', ?_, ?_⟩
      · simp only [printRec, hrecord, Option.bind_eq_bind, Option.bind_some]
        rw [show printAll _ _ (s.sort (startOf records) records[i].children) = _ from h]
        rfl
      · have horder : ChildOrder base i children := by
          refine ⟨hperm, ?_⟩
          rw [← hr.startOf]
          exact s.sorted _ _
        simpa [Row.entry, TimerRecord.row] using Outline.Walk.cons horder hwalk .nil
      · intro row hrow
        rcases List.mem_cons.mp hrow with rfl | hrow
        · have hbare := hr.getElem? i
          rw [hrecord, List.getElem?_eq_getElem hi, Option.map_some, Option.map_some,
            Option.some.injEq] at hbare
          refine ⟨base[i], List.getElem?_eq_getElem hi, ?_⟩
          show records[i].bare.row i indent = base[i].bare.row i indent
          rw [hbare]
        · exact hrows row hrow

/-- The roots, in the order of the records. -/
def roots (records : List TimerRecord) : List Nat :=
  (List.range records.length).filter fun i => (parentOf records i).isNone

theorem printRoots_spec (s : UnstableSort) {records : List TimerRecord} (hf : Forest records) :
    Prints records (roots records) 0 (printRoots s records) := by
  have hroots : roots records = (List.range records.length).flatMap fun i =>
      if (parentOf records i).isNone then [i] else [] := by
    rw [roots]
    induction List.range records.length with
    | nil => rfl
    | cons i is ih =>
        rw [List.filter_cons, List.flatMap_cons, ih]
        split
        · rfl
        · rfl
  rw [hroots]
  refine printAll_spec ?_ (.refl records)
  intro rs i hi hr
  rw [hr.parentOf]
  cases hp : parentOf records i with
  | some p => exact ⟨rs, [], rfl, hr, .nil, nofun⟩
  | none => exact printRec_spec s hf 0 hr (List.mem_range.mp hi) (Nat.le_add_right _ _)

/-! ## The report -/

/-- A report lists the records: each one once, with its own data, roots without
indentation, every other record one level below its parent, that is, with only
deeper rows between the two, and siblings by start. -/
structure Lists (records : List TimerRecord) (rows : List Row) : Prop where
  once : (rows.map Row.index).Perm (List.range records.length)
  shows : ∀ row ∈ rows, row.Shows records
  root : ∀ row ∈ rows, parentOf records row.index = none → row.indent = 0
  under : ∀ before row after p, rows = before ++ row :: after →
    parentOf records row.index = some p →
    ∃ a above b, before = a ++ above :: b ∧ above.index = p ∧ row.indent = above.indent + 1 ∧
      ∀ r ∈ b, above.indent < r.indent
  siblings : rows.Pairwise fun x y => ∀ p, parentOf records x.index = some p →
    parentOf records y.index = some p → startOf records x.index ≤ startOf records y.index

theorem mirrors_of_forest {records : List TimerRecord} (hf : Forest records) :
    Outline.Mirrors (parentOf records) (ChildOrder records) := by
  intro i children h c
  rw [h.1.count_eq, hf.count_children]

theorem count_roots (records : List TimerRecord) (c : Nat) :
    (roots records).count c =
      if c ∈ List.range records.length ∧ parentOf records c = none then 1 else 0 := by
  rw [roots, (List.nodup_range.filter _).count]
  simp only [List.mem_filter, Option.isNone_iff_eq_none]

/-- What a walk over the roots of a forest prints lists the records. -/
theorem lists_of_walk {records : List TimerRecord} (hf : Forest records) {rows : List Row}
    (hwalk : Outline.Walk (ChildOrder records) (roots records) 0 (rows.map Row.entry))
    (hshows : ∀ row ∈ rows, row.Shows records) : Lists records rows := by
  have hm := mirrors_of_forest hf
  have hnodes : Outline.nodes (rows.map Row.entry) = rows.map Row.index := List.map_map ..
  have honce : (rows.map Row.index).Perm (List.range records.length) := by
    rw [← hnodes]
    refine hwalk.perm hm id hf.parent_lt List.nodup_range ?_ (count_roots records)
    intro c p hp
    have hc := lt_length_of_parentOf hp
    have hlt := hf.parent_lt c p hp
    simp only [List.mem_range]
    omega
  refine ⟨honce, hshows, ?_, ?_, ?_⟩
  · intro row hrow hroot
    obtain ⟨before, after, rfl⟩ := List.append_of_mem hrow
    rw [List.map_append, List.map_cons] at hwalk
    rcases hwalk.under hm rfl with ⟨-, hd⟩ | ⟨p, _, _, _, hp, -⟩
    · exact hd
    · rw [show parentOf records row.entry.1 = none from hroot] at hp
      cases hp
  · rintro before row after p rfl hp
    rw [List.map_append, List.map_cons] at hwalk
    rcases hwalk.under hm rfl with ⟨hmem, -⟩ | ⟨q, a, f, b, hq, hbefore, hd, hb⟩
    · have hnone := (List.mem_filter.mp hmem).2
      rw [show parentOf records row.entry.1 = some p from hp] at hnone
      cases hnone
    · -- pull the split of the entries back to the rows
      obtain ⟨xs, ys, rfl, rfl, hys⟩ := List.map_eq_append_iff.mp hbefore
      obtain ⟨above, zs, rfl, habove, rfl⟩ := List.map_eq_cons_iff.mp hys
      cases habove
      refine ⟨xs, above, zs, rfl, ?_, hd, fun r hr => hb _ (List.mem_map_of_mem hr)⟩
      exact Option.some.inj (hq.symm.trans hp)
  · have hsib := hwalk.pairwise_siblings hm (fun _ _ h => h.2)
      (hnodes ▸ honce.nodup_iff.mpr List.nodup_range) ?_
    · rw [hnodes, List.pairwise_map] at hsib
      exact hsib
    · refine List.pairwise_of_forall_mem_list ?_
      intro x hx y _ p hp
      have hnone := (List.mem_filter.mp hx).2
      rw [hp] at hnone
      cases hnone

/-- Nothing is left to stop, to link or to adopt. -/
structure Quiet (records : List TimerRecord) : Prop where
  forest : Forest records
  adopted : FullyAdopted records
  stopped : ∀ record ∈ records, record.stopped = true

/-- Stopped timers are not stopped again. -/
theorem stopAll_eq_self {records : List TimerRecord}
    (h : ∀ record ∈ records, record.stopped = true) (readings : Nat → Reading) :
    stopAll readings records = records := by
  refine List.ext_getElem (List.length_mapIdx ..) ?_
  intro i _ hi
  simp [stopAll, TimerRecord.stop, h records[i] (List.getElem_mem hi)]

/-- On quiet records, the first two loops of a call change nothing. -/
theorem Quiet.adoptAll_stopAll {records : List TimerRecord} (h : Quiet records)
    (readings : Nat → Reading) : adoptAll (stopAll readings records) = records := by
  rw [stopAll_eq_self h.stopped, h.adopted.adoptAll_eq]

/-- After the first two loops the records are quiet. -/
theorem quiet_adoptAll {records : List TimerRecord} (hf : Forest records)
    (readings : Nat → Reading) : Quiet (adoptAll (stopAll readings records)) where
  forest := (hf.stopAll readings).adoptAll
  adopted := fullyAdopted_adoptAll _
  stopped := by
    intro record hmem
    have hmap := List.mem_map_of_mem (f := TimerRecord.stopped) hmem
    rw [map_adoptAll (fun _ _ => rfl) (fun _ _ => rfl)] at hmap
    obtain ⟨before, hbefore, heq⟩ := List.mem_map.mp hmap
    obtain ⟨i, hi, rfl⟩ := List.mem_mapIdx.mp hbefore
    rw [← heq, TimerRecord.stop]
    split
    · assumption
    · rfl

/-- Printing leaves them quiet. -/
theorem Quiet.reordered {base records : List TimerRecord} (h : Quiet base)
    (hr : Reordered base records) : Quiet records where
  forest := hr.forest h.forest
  adopted := by
    have hmap : ∀ rs : List TimerRecord,
        rs.map TimerRecord.interval = (rs.map TimerRecord.bare).map TimerRecord.interval :=
      fun rs => by rw [List.map_map]; rfl
    intro i
    refine (h.adopted i).congr (hr.parentOf i) ?_
    rw [hmap records, hr.bare, ← hmap]
  stopped := by
    intro record hmem
    have hbare := List.mem_map_of_mem (f := TimerRecord.bare) hmem
    rw [hr.bare] at hbare
    obtain ⟨before, hbefore, heq⟩ := List.mem_map.mp hbare
    exact (congrArg TimerRecord.stopped heq).symm.trans (h.stopped before hbefore)

/-- One call. -/
theorem printTimerRecords_spec (s : UnstableSort) {records : List TimerRecord}
    (hf : Forest records) (readings : Nat → Reading) :
    ∃ printed report, printTimerRecords s readings records = some (printed, report) ∧
      Reordered (adoptAll (stopAll readings records)) printed ∧
      Lists (adoptAll (stopAll readings records)) report.rows := by
  have hquiet := quiet_adoptAll hf readings
  obtain ⟨printed, rows, h, hr, hwalk, hshows⟩ := printRoots_spec s hquiet.forest
  refine ⟨printed, ⟨reportHeader, rows⟩, ?_, hr, lists_of_walk hquiet.forest hwalk hshows⟩
  simp only [printTimerRecords, h]
  rfl

/-- A further call, by its effect on the records. -/
def printCall (s : UnstableSort) (records : List TimerRecord) (readings : Nat → Reading) :
    Option (List TimerRecord) :=
  (printTimerRecords s readings records).map Prod.fst

theorem printCalls_spec (s : UnstableSort) {base : List TimerRecord} (hq : Quiet base) :
    ∀ (calls : List (Nat → Reading)) {records : List TimerRecord}, Reordered base records →
      ∃ again, Transition.run (printCall s) records calls = some again ∧ Reordered base again
  | [], records, hr => ⟨records, rfl, hr⟩
  | readings :: calls, records, hr => by
      have hrecords := hq.reordered hr
      obtain ⟨printed, report, h, hr', -⟩ := printTimerRecords_spec s hrecords.forest readings
      rw [hrecords.adoptAll_stopAll] at hr'
      obtain ⟨again, hagain, hr''⟩ := printCalls_spec s hq calls (hr.trans hr')
      refine ⟨again, ?_, hr''⟩
      rw [Transition.run_cons_of_step (by rw [printCall, h]; rfl), hagain]

/-- The report loses and duplicates nothing.  Whatever the timers did and
whatever the clocks say, after adoption the links form a forest, the call ends,
and its report lists the records.  So does every further call, which finds
nothing to adopt. -/
theorem timer_report (s : UnstableSort) {ops : List TimerOp} {records : List TimerRecord}
    (hrun : Transition.run timerStep [] ops = some records) (readings : Nat → Reading) :
    Forest (adoptAll (stopAll readings records)) ∧
    ∃ printed report, printTimerRecords s readings records = some (printed, report) ∧
      Lists (adoptAll (stopAll readings records)) report.rows ∧
      ∀ calls : List (Nat → Reading), ∃ again,
        Transition.run (printCall s) printed calls = some again ∧
        Reordered (adoptAll (stopAll readings records)) again ∧
        ∀ readings', adoptAll (stopAll readings' again) = again ∧ Forest again ∧
          ∃ printed' report', printTimerRecords s readings' again = some (printed', report') ∧
            Lists again report'.rows := by
  have hf : Forest records :=
    Transition.run_invariant Forest (fun _ _ _ hf h => hf.timerStep h) forest_nil hrun
  have hquiet := quiet_adoptAll hf readings
  obtain ⟨printed, report, h, hr, hlists⟩ := printTimerRecords_spec s hf readings
  refine ⟨hquiet.forest, printed, report, h, hlists, ?_⟩
  intro calls
  obtain ⟨again, hagain, hr'⟩ := printCalls_spec s hquiet calls hr
  have hq := hquiet.reordered hr'
  refine ⟨again, hagain, hr', ?_⟩
  intro readings'
  obtain ⟨printed', report', h', -, hlists'⟩ := printTimerRecords_spec s hq.forest readings'
  rw [hq.adoptAll_stopAll] at hlists'
  exact ⟨hq.adoptAll_stopAll readings', hq.forest, printed', report', h', hlists'⟩

/-- A stable sort is one. -/
def stableSort : UnstableSort where
  sort key l := l.mergeSort fun a b => key a ≤ key b
  perm _ l := List.mergeSort_perm l _
  sorted key l := by
    have h := @List.pairwise_mergeSort Nat (fun a b => decide (key a ≤ key b))
      (fun a b c => by simp; omega) (fun a b => by simp; omega) l
    exact h.imp fun hab => by simpa using hab

/-- Two timers, the second one stopped inside the first. -/
def nestedOps : List TimerOp :=
  [.construct "all" none ⟨0, 0, 0⟩, .construct "parse args" none ⟨1, 0, 0⟩, .stop 1 ⟨2, 0, 0⟩]

theorem timer_report_nested :
    ∃ records, Transition.run timerStep [] nestedOps = some records ∧
      parentOf (adoptAll (stopAll (fun _ => ⟨3, 0, 0⟩) records)) 1 = some 0 ∧
      ∃ printed report, printTimerRecords stableSort (fun _ => ⟨3, 0, 0⟩) records =
          some (printed, report) ∧
        Lists (adoptAll (stopAll (fun _ => ⟨3, 0, 0⟩) records)) report.rows := by
  refine ⟨_, rfl, by decide, ?_⟩
  obtain ⟨-, printed, report, h, hlists, -⟩ :=
    @timer_report stableSort nestedOps _ rfl fun _ => ⟨3, 0, 0⟩
  exact ⟨printed, report, h, hlists⟩

end Gazosan
