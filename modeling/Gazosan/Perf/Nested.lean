import Gazosan.Perf.Report
import Gazosan.Library.Nesting
import Mathlib.Data.Int.Order.Basic

/-!
# Nested timers

On one thread the timers of the program are nested: the timer that is stopped
first is the one constructed last.  The report does not see this nesting.  It has
the parents that were given to constructors, and looks for the others by the time
intervals.

`bracketStep` is the nesting, kept beside the records, and `Tracks` relates the
two.  `parentOf_adoptAll` says what adoption does with all records.  On nested
timers it finds the timer that was running innermost (`report_nesting`).
-/

namespace Gazosan

/-! ## Well-bracketed timers -/

/-- One operation on nested timers.  A constructor is given the innermost running
timer as its parent, or none.  A timer is stopped for the first time while it is the
innermost.  The clock is read by constructors and first stops, and goes up. -/
def bracketStep (st : Nesting.State Int) : TimerOp → Option (Nesting.State Int)
  | .construct _ parent reading =>
      if st.later reading.now ∧ (parent = none ∨ parent = st.running.head?) then
        some (st.opens reading.now)
      else none
  | .stop i reading =>
      if st.running.head? = some i then
        if st.later reading.now then some (st.closes i reading.now) else none
      else if i < st.spans.length ∧ i ∉ st.running then some st
      else none

/-- A record of a span.  Its parent is not known or is the encloser. -/
structure Follows (record : TimerRecord) (span : Nesting.Span Int) : Prop where
  start : record.start = span.start
  stopped : record.stopped = span.finish.isSome
  finish : ∀ f ∈ span.finish, record.finish = f
  parent : record.parent = none ∨ record.parent = span.encloser

/-- There is one record for each span. -/
structure Tracks (st : Nesting.State Int) (records : List TimerRecord) : Prop where
  length : records.length = st.spans.length
  follows : ∀ (i : Nat) (span : Nesting.Span Int), st.spans[i]? = some span →
    ∃ record, records[i]? = some record ∧ Follows record span

/-- One record is changed, and each record follows its span afterwards. -/
theorem Tracks.modify {st st' : Nesting.State Int} {records : List TimerRecord}
    (h : Tracks st records) (hlength : st'.spans.length = st.spans.length) {i : Nat}
    {f : TimerRecord → TimerRecord}
    (hf : ∀ (k : Nat) (span : Nesting.Span Int), st'.spans[k]? = some span →
      ∃ span₀, st.spans[k]? = some span₀ ∧
        ∀ record, Follows record span₀ → Follows (if i = k then f record else record) span) :
    Tracks st' (records.modify i f) where
  length := by rw [List.length_modify, h.length, hlength]
  follows k span hspan := by
    obtain ⟨span₀, hspan₀, hkeep⟩ := hf k span hspan
    obtain ⟨record, hr, hfollows⟩ := h.follows k span₀ hspan₀
    refine ⟨_, ?_, hkeep record hfollows⟩
    rw [List.getElem?_modify, hr]
    split
    · rfl
    · rfl

/-- The children are not part of what follows. -/
theorem Tracks.pushChild {st : Nesting.State Int} {records : List TimerRecord}
    (h : Tracks st records) (p child : Nat) : Tracks st (pushChild records p child) := by
  refine h.modify rfl fun k span hspan => ⟨span, hspan, fun record hfollows => ?_⟩
  split
  · exact ⟨hfollows.start, hfollows.stopped, hfollows.finish, hfollows.parent⟩
  · exact hfollows

/-- A new record for a new span. -/
theorem Tracks.opens {st : Nesting.State Int} {records : List TimerRecord}
    (h : Tracks st records) {t : Int} {record : TimerRecord} (hstart : record.start = t)
    (hstopped : record.stopped = false)
    (hparent : record.parent = none ∨ record.parent = st.running.head?) :
    Tracks (st.opens t) (records ++ [record]) where
  length := by simp [Nesting.State.opens, h.length]
  follows i span hspan := by
    rcases Nesting.getElem?_opens.mp hspan with hspan | ⟨rfl, rfl⟩
    · obtain ⟨r, hr, hfollows⟩ := h.follows i span hspan
      rw [List.getElem?_append_left (List.getElem?_eq_some_iff.mp hr).1]
      exact ⟨r, hr, hfollows⟩
    · refine ⟨record, by simp [← h.length], hstart, hstopped, ?_, hparent⟩
      intro f hf
      cases hf

/-- The first stop of a timer. -/
theorem Tracks.closes {st : Nesting.State Int} {records : List TimerRecord}
    (h : Tracks st records) (hinv : Nesting.Inv st) {i : Nat} (hi : st.running.head? = some i)
    (reading : Reading) :
    Tracks (st.closes i reading.now) (records.modify i (·.stop reading)) := by
  refine h.modify (List.length_modify ..) fun k span hspan => ?_
  obtain ⟨span₀, hspan₀, rfl⟩ := Nesting.exists_of_closes hspan
  refine ⟨span₀, hspan₀, fun record hfollows => ?_⟩
  by_cases hk : i = k
  · subst hk
    obtain ⟨span', hspan', hopen⟩ := (hinv.running_iff i).mp (List.mem_of_mem_head? hi)
    rw [hspan₀] at hspan'
    cases hspan'
    have hrunning : record.stopped = false := by rw [hfollows.stopped, hopen]; rfl
    rw [if_pos rfl, if_pos rfl]
    refine ⟨?_, ?_, ?_, ?_⟩
    · simp [TimerRecord.stop, hrunning, hfollows.start]
    · simp [TimerRecord.stop, hrunning]
    · simp [TimerRecord.stop, hrunning]
    · simpa using hfollows.parent
  · rw [if_neg hk, if_neg (Ne.symm hk)]
    exact hfollows

/-- A further stop of a timer changes nothing. -/
theorem Tracks.stop_again {st : Nesting.State Int} {records : List TimerRecord}
    (h : Tracks st records) (hinv : Nesting.Inv st) {i : Nat} (hi : i ∉ st.running)
    (reading : Reading) : Tracks st (records.modify i (·.stop reading)) := by
  refine h.modify rfl fun k span hspan => ⟨span, hspan, fun record hfollows => ?_⟩
  split
  · rename_i hk
    subst hk
    obtain ⟨f, hf⟩ := hinv.closed hspan hi
    have hstopped : record.stopped = true := by rw [hfollows.stopped, hf]; rfl
    rw [TimerRecord.stop, if_pos hstopped]
    exact hfollows
  · exact hfollows

/-- The records follow every operation on nested timers. -/
theorem Tracks.step {st st' : Nesting.State Int} {records : List TimerRecord} {op : TimerOp}
    (h : Nesting.Inv st ∧ Tracks st records) (hop : bracketStep st op = some st') :
    ∃ records', timerStep records op = some records' ∧ Nesting.Inv st' ∧ Tracks st' records' := by
  obtain ⟨hinv, htracks⟩ := h
  cases op with
  | construct name parent reading =>
      simp only [bracketStep] at hop
      split at hop
      · rename_i hguard
        obtain ⟨hlater, hparent⟩ := hguard
        cases hop
        cases parent with
        | none => exact ⟨_, rfl, hinv.opens hlater, htracks.opens rfl rfl (.inl rfl)⟩
        | some p =>
            have hhead : st.running.head? = some p := (hparent.resolve_left nofun).symm
            have hp : p < records.length := by
              rw [htracks.length]
              exact hinv.lt_length (List.mem_of_mem_head? hhead)
            exact ⟨_, if_pos hp, hinv.opens hlater,
              (htracks.pushChild p records.length).opens rfl rfl (.inr hhead.symm)⟩
      · cases hop
  | stop i reading =>
      simp only [bracketStep] at hop
      split at hop
      · rename_i hhead
        split at hop
        · rename_i hlater
          cases hop
          have hi : i < records.length := by
            rw [htracks.length]
            exact hinv.lt_length (List.mem_of_mem_head? hhead)
          exact ⟨_, if_pos hi, hinv.closes hlater hhead, htracks.closes hinv hhead reading⟩
        · cases hop
      · split at hop
        · rename_i hstopped
          cases hop
          exact ⟨_, if_pos (htracks.length ▸ hstopped.1), hinv,
            htracks.stop_again hinv hstopped.2 reading⟩
        · cases hop

/-- Nested timers are timers, and their records follow the nesting. -/
theorem tracks_of_run {ops : List TimerOp} {st : Nesting.State Int}
    (hops : Transition.run bracketStep {} ops = some st) :
    ∃ records, Transition.run timerStep [] ops = some records ∧ Nesting.Inv st ∧
      Tracks st records := by
  have hinit : Nesting.Inv ({} : Nesting.State Int) ∧ Tracks {} [] := ⟨.init, rfl, nofun⟩
  refine Transition.run_simulation (fun st records => Nesting.Inv st ∧ Tracks st records) ?_
    hinit hops
  intro st records op st' h hop
  exact Tracks.step h hop

/-! ## What adoption does -/

/-- The condition of the inner loop. -/
def TimerRecord.Encloses (outer inner : TimerRecord) : Prop :=
  outer.start ≤ inner.start ∧ inner.finish ≤ outer.finish

/-- The search passes over a record that does not enclose the inner one. -/
theorem findOuter_succ {records : List TimerRecord} {inner : TimerRecord} {i : Nat}
    (h : ∀ outer, records[i]? = some outer → ¬ outer.Encloses inner) :
    findOuter records inner (i + 1) = findOuter records inner i := by
  rw [findOuter]
  split
  · rfl
  · rename_i outer houter
    exact if_neg (h outer houter)

theorem findOuter_eq_none {records : List TimerRecord} {inner : TimerRecord} {i : Nat}
    (h : ∀ (j : Nat) (outer : TimerRecord), j < i → records[j]? = some outer →
      ¬ outer.Encloses inner) : findOuter records inner i = none := by
  induction i with
  | zero => rfl
  | succ i ih =>
      rw [findOuter_succ fun outer => h i outer (Nat.lt_succ_self i)]
      exact ih fun j outer hj => h j outer (Nat.lt_succ_of_lt hj)

/-- The last record before `i` that encloses it is found. -/
theorem findOuter_eq_some {records : List TimerRecord} {inner outer : TimerRecord} {i p : Nat}
    (hp : p < i) (houter : records[p]? = some outer) (hencloses : outer.Encloses inner)
    (h : ∀ (j : Nat) (other : TimerRecord), p < j → j < i → records[j]? = some other →
      ¬ other.Encloses inner) : findOuter records inner i = some p := by
  induction i with
  | zero => exact absurd hp (Nat.not_lt_zero p)
  | succ i ih =>
      rcases Nat.lt_succ_iff_lt_or_eq.mp hp with hlt | rfl
      · rw [findOuter_succ fun other => h i other hlt (Nat.lt_succ_self i)]
        exact ih hlt fun j other hj hji => h j other hj (Nat.lt_succ_of_lt hji)
      · rw [findOuter, houter]
        exact if_pos hencloses

/-- One round of the loop gives the record its parent, or the last record around it. -/
theorem parentOf_adoptOne (records : List TimerRecord) (i k : Nat) :
    parentOf (adoptOne records i) k =
      if k = i then records[i]?.bind fun r => r.parent.or (findOuter records r i)
      else parentOf records k := by
  rcases adoptOne_cases records i with ⟨inner, j, hr, hp, hj, heq⟩ | ⟨hnone, heq⟩
  · rw [heq, parentOf_attach (List.getElem?_eq_some_iff.mp hr).1, hr, Option.bind_some, hp, hj,
      Option.none_or]
  · rw [heq]
    by_cases hk : k = i
    · subst hk
      rw [if_pos rfl, parentOf]
      cases hr : records[k]? with
      | none => rfl
      | some inner =>
          cases hp : inner.parent with
          | none => simp [hp, hnone inner hr hp]
          | some p => simp [hp]
    · rw [if_neg hk]

theorem interval_adoptOne (records : List TimerRecord) (i : Nat) :
    (adoptOne records i).map TimerRecord.interval = records.map TimerRecord.interval := by
  rcases adoptOne_cases records i with ⟨_, j, -, -, -, heq⟩ | ⟨-, heq⟩
  · rw [heq, interval_attach]
  · rw [heq]

/-- The rounds of the loop do not get into each other's way: they keep the intervals. -/
theorem parentOf_foldl_adoptOne (records : List TimerRecord) (n : Nat) :
    ((List.range n).foldl adoptOne records).map TimerRecord.interval =
        records.map TimerRecord.interval ∧
      ∀ k, parentOf ((List.range n).foldl adoptOne records) k =
        if k < n then records[k]?.bind fun r => r.parent.or (findOuter records r k)
        else parentOf records k := by
  induction n with
  | zero => exact ⟨rfl, fun k => rfl⟩
  | succ n ih =>
      obtain ⟨hint, hparent⟩ := ih
      rw [List.range_succ, List.foldl_append, List.foldl_cons, List.foldl_nil]
      refine ⟨(interval_adoptOne _ n).trans hint, fun k => ?_⟩
      rw [parentOf_adoptOne, hparent]
      by_cases hk : k = n
      · subst hk
        rw [if_pos rfl, if_pos (Nat.lt_succ_self k)]
        have hself := hparent k
        rw [if_neg (Nat.lt_irrefl k)] at hself
        have hinterval : ((List.range k).foldl adoptOne records)[k]?.map TimerRecord.interval =
            records[k]?.map TimerRecord.interval := by
          rw [← List.getElem?_map, hint, List.getElem?_map]
        cases hr : records[k]? with
        | none =>
            rw [hr, Option.map_none, Option.map_eq_none_iff] at hinterval
            rw [hinterval, Option.bind_none, Option.bind_none]
        | some r =>
            rw [hr, Option.map_some, Option.map_eq_some_iff] at hinterval
            obtain ⟨r', hr', hi⟩ := hinterval
            rw [parentOf_eq hr', parentOf_eq hr] at hself
            rw [hr', Option.bind_some, Option.bind_some, hself, findOuter_congr hint hi]
      · rw [if_neg hk]
        by_cases hlt : k < n
        · rw [if_pos hlt, if_pos (Nat.lt_succ_of_lt hlt)]
        · rw [if_neg hlt, if_neg (by omega)]

/-- After the loop every record has the parent it had, or the last record around it. -/
theorem parentOf_adoptAll {records : List TimerRecord} {i : Nat} {record : TimerRecord}
    (h : records[i]? = some record) :
    parentOf (adoptAll records) i = record.parent.or (findOuter records record i) := by
  rw [adoptAll, (parentOf_foldl_adoptOne records records.length).2,
    if_pos (List.getElem?_eq_some_iff.mp h).1, h, Option.bind_some]

/-! ## The report shows the nesting -/

section

variable {st : Nesting.State Int} {records : List TimerRecord}

/-- Records enclose each other as their spans do. -/
theorem encloses_iff_contains {outer inner : TimerRecord} {span span' : Nesting.Span Int}
    (h : Follows outer span) (h' : Follows inner span') (hclosed : ∃ g, span.finish = some g)
    (hclosed' : ∃ f, span'.finish = some f) : outer.Encloses inner ↔ span.Contains span' := by
  obtain ⟨g, hg⟩ := hclosed
  obtain ⟨f, hf⟩ := hclosed'
  rw [TimerRecord.Encloses, Nesting.Span.Contains, h.start, h'.start, h.finish g hg,
    h'.finish f hf, hg, hf]
  simp

/-- When every timer is stopped, the search finds the encloser. -/
theorem Tracks.findOuter (h : Tracks st records) (hinv : Nesting.Inv st)
    (hclosed : st.running = []) {i : Nat} {span : Nesting.Span Int} {record : TimerRecord}
    (hspan : st.spans[i]? = some span) (hfollows : Follows record span) :
    findOuter records record i = span.encloser := by
  have hall : ∀ (k : Nat) (s : Nesting.Span Int), st.spans[k]? = some s →
      ∃ f, s.finish = some f := fun k s hs => hinv.closed hs (by simp [hclosed])
  have hother : ∀ (j : Nat) (other : TimerRecord), j < i → (∀ p ∈ span.encloser, p < j) →
      records[j]? = some other → ¬ other.Encloses record := by
    intro j other hj hp hother
    have hjlt : j < st.spans.length := h.length ▸ (List.getElem?_eq_some_iff.mp hother).1
    obtain ⟨r, hr', hf⟩ := h.follows j _ (List.getElem?_eq_getElem hjlt)
    rw [hother] at hr'
    cases hr'
    rw [encloses_iff_contains hf hfollows (hall j _ (List.getElem?_eq_getElem hjlt))
      (hall i _ hspan)]
    exact hinv.not_contains hspan (List.getElem?_eq_getElem hjlt) hj hp
  cases hencloser : span.encloser with
  | none =>
      refine findOuter_eq_none fun j outer hj => hother j outer hj ?_
      rw [hencloser]
      nofun
  | some p =>
      obtain ⟨hlt, q, hq, hcontains⟩ := hinv.contains_encloser hclosed hspan hencloser
      obtain ⟨outer, houter, hf⟩ := h.follows p q hq
      refine findOuter_eq_some hlt houter
        ((encloses_iff_contains hf hfollows (hall p q hq) (hall i _ hspan)).mpr hcontains) ?_
      intro j other hpj hji
      refine hother j other hji ?_
      rw [hencloser]
      rintro _ ⟨⟩
      exact hpj

/-- When every timer is stopped, the parents after adoption are the enclosers. -/
theorem Tracks.parentOf_adoptAll (h : Tracks st records) (hinv : Nesting.Inv st)
    (hclosed : st.running = []) (readings : Nat → Reading) {i : Nat} {span : Nesting.Span Int}
    (hspan : st.spans[i]? = some span) :
    parentOf (adoptAll (stopAll readings records)) i = span.encloser := by
  have hstopped : ∀ record ∈ records, record.stopped = true := by
    intro record hmem
    obtain ⟨k, hk, rfl⟩ := List.mem_iff_getElem.mp hmem
    have hk' : k < st.spans.length := h.length ▸ hk
    obtain ⟨r, hr, hf⟩ := h.follows k _ (List.getElem?_eq_getElem hk')
    rw [List.getElem?_eq_getElem hk, Option.some.injEq] at hr
    obtain ⟨f, hfinish⟩ := hinv.closed (List.getElem?_eq_getElem hk') (by simp [hclosed])
    rw [hr, hf.stopped, hfinish]
    rfl
  obtain ⟨record, hr, hfollows⟩ := h.follows i span hspan
  rw [stopAll_eq_self hstopped, Gazosan.parentOf_adoptAll hr,
    h.findOuter hinv hclosed hspan hfollows]
  rcases hfollows.parent with hp | hp
  · rw [hp, Option.none_or]
  · rw [hp, Option.or_self]

end

/-- A row is printed under the row of record `p`: one level deeper, with only deeper
rows between the two. -/
def Row.PrintedUnder (before : List Row) (row : Row) (p : Nat) : Prop :=
  ∃ a above b, before = a ++ above :: b ∧ above.index = p ∧ row.indent = above.indent + 1 ∧
    ∀ r ∈ b, above.indent < r.indent

/-- On nested timers, all of them stopped, the report is the tree of the nesting.  It
has one row for each timer, without indentation if no timer was running when it was
constructed, and otherwise under the timer that was running innermost. -/
theorem report_nesting (s : UnstableSort) {ops : List TimerOp} {st : Nesting.State Int}
    (hops : Transition.run bracketStep {} ops = some st) (hstopped : st.running = [])
    (readings : Nat → Reading) :
    ∃ records printed report, Transition.run timerStep [] ops = some records ∧
      printTimerRecords s readings records = some (printed, report) ∧
      (report.rows.map Row.index).Perm (List.range st.spans.length) ∧
      (∀ (i : Nat) (span : Nesting.Span Int), st.spans[i]? = some span →
        parentOf (adoptAll (stopAll readings records)) i = span.encloser) ∧
      ∀ before row after, report.rows = before ++ row :: after →
        ∃ span, st.spans[row.index]? = some span ∧
          (span.encloser = none ∧ row.indent = 0 ∨
            ∃ p, span.encloser = some p ∧ Row.PrintedUnder before row p) := by
  obtain ⟨records, hrun, hinv, htracks⟩ := tracks_of_run hops
  have hforest : Forest records :=
    Transition.run_invariant Forest (fun _ _ _ hf h => hf.timerStep h) forest_nil hrun
  obtain ⟨printed, report, hprint, -, hlists⟩ := printTimerRecords_spec s hforest readings
  have hparent : ∀ (i : Nat) (span : Nesting.Span Int), st.spans[i]? = some span →
      parentOf (adoptAll (stopAll readings records)) i = span.encloser :=
    fun i span hspan => htracks.parentOf_adoptAll hinv hstopped readings hspan
  have hlength : (adoptAll (stopAll readings records)).length = st.spans.length := by
    rw [length_adoptAll, stopAll, List.length_mapIdx, htracks.length]
  refine ⟨records, printed, report, hrun, hprint, hlength ▸ hlists.once, hparent, ?_⟩
  intro before row after hrows
  have hmem : row ∈ report.rows := by simp [hrows]
  have hi : row.index < st.spans.length := by
    have := hlists.once.mem_iff.mp (List.mem_map_of_mem hmem)
    rwa [List.mem_range, hlength] at this
  have hspan := List.getElem?_eq_getElem hi
  refine ⟨_, hspan, ?_⟩
  have hrow := hparent row.index _ hspan
  cases hencloser : st.spans[row.index].encloser with
  | none => exact .inl ⟨rfl, hlists.root row hmem (hrow.trans hencloser)⟩
  | some p =>
      exact .inr ⟨p, rfl, hlists.under before row after p hrows (hrow.trans hencloser)⟩

/-- A timer around two others, the second of which has a third inside with an explicit
parent.  The first of them is stopped twice. -/
def bracketedOps : List TimerOp :=
  [.construct "all" none ⟨0, 0, 0⟩, .construct "load image" none ⟨1, 0, 0⟩, .stop 1 ⟨2, 0, 0⟩,
    .stop 1 ⟨9, 0, 0⟩, .construct "split segments" none ⟨3, 0, 0⟩,
    .construct "grouping" (some 2) ⟨4, 0, 0⟩, .stop 3 ⟨5, 0, 0⟩, .stop 2 ⟨6, 0, 0⟩,
    .stop 0 ⟨7, 0, 0⟩]

theorem report_nesting_bracketed :
    ∃ records printed report, Transition.run timerStep [] bracketedOps = some records ∧
      printTimerRecords stableSort (fun _ => ⟨9, 0, 0⟩) records = some (printed, report) ∧
      (report.rows.map Row.index).Perm (List.range 4) ∧
      [0, 1, 2, 3].map (parentOf (adoptAll (stopAll (fun _ => ⟨9, 0, 0⟩) records))) =
        [none, some 0, some 0, some 2] := by
  obtain ⟨records, printed, report, hrun, hprint, honce, hparent, -⟩ :=
    @report_nesting stableSort bracketedOps _ rfl rfl fun _ => ⟨9, 0, 0⟩
  refine ⟨records, printed, report, hrun, hprint, honce, ?_⟩
  simp only [List.map_cons, List.map_nil]
  rw [hparent 0 _ rfl, hparent 1 _ rfl, hparent 2 _ rfl, hparent 3 _ rfl]
  rfl

end Gazosan
