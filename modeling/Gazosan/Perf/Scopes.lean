import Gazosan.Library.Blocks
import Gazosan.Perf.Nested

/-!
# Timers as local variables

A `Timer` is a local variable: its constructor starts it, and the end of its block
stops it.  Some timers are given the timer of the block around them as their parent,
and one is stopped by hand before its block ends.

So the timers of one thread are blocks inside blocks, and `events` says which
constructors and stops such blocks perform.  The report is then the text of the
program: the names of the timers, indented as their blocks are nested and in the
order in which they are entered (`report_scopes`).  Parents that are given and
parents that are found by time make no difference.
-/

namespace Gazosan

open Blocks

/-- A local variable of type `Timer`. -/
structure Scope where
  name : String
  /-- The constructor is given the timer of the block around it. -/
  linked : Bool := false
  /-- `stop` is called before the timers after it are constructed.  The destructor calls
  it again. -/
  early : Bool := false

/-- An operation on timers without the clocks it reads. -/
inductive TimerEvent where
  | construct (name : String) (parent : Option Nat)
  | stop (i : Nat)

def TimerOp.event : TimerOp → TimerEvent
  | .construct name parent _ => .construct name parent
  | .stop i _ => .stop i

/-- What the clock shows at an operation. -/
def TimerOp.now : TimerOp → Int
  | .construct _ _ reading => reading.now
  | .stop _ reading => reading.now

/-- The operations of the timers of a block, inside the block of timer `p`.  Destructors
run in the reverse order of the constructors. -/
def events (p : Option Nat) (n : Nat) : Block Scope → List TimerEvent
  | .nil => []
  | .block scope inner rest =>
      .construct scope.name (if scope.linked then p else none) ::
        (events (some n) (n + 1) inner ++ .stop n ::
          (events p (n + 1 + inner.size) rest ++ if scope.early then [.stop n] else []))

/-- The operations that read the clock.  The `stop` of a timer that was stopped before
returns at once. -/
def reads : List Nat → List TimerOp → List TimerOp
  | _, [] => []
  | stopped, .construct name parent reading :: ops =>
      .construct name parent reading :: reads stopped ops
  | stopped, .stop i reading :: ops =>
      if i ∈ stopped then reads stopped ops else .stop i reading :: reads (i :: stopped) ops

/-- The clock goes up from one reading to the next. -/
def Rising (ops : List TimerOp) : Prop := (reads [] ops).Pairwise fun a b => a.now < b.now

/-- The operation with the clock at `n`. -/
def TimerEvent.tick (n : Nat) : TimerEvent → TimerOp
  | .construct name parent => .construct name parent ⟨n, 0, 0⟩
  | .stop i => .stop i ⟨n, 0, 0⟩

/-- One operation at each of the times `0`, `1`, …. -/
def clocked (events : List TimerEvent) : List TimerOp := events.mapIdx TimerEvent.tick

/-! ## Blocks are nested -/

/-- What the blocks do to the nesting, after some timers have been stopped: nothing is left
running, and each block has the block around it as its encloser. -/
structure Performs (stopped : List Nat) (p : Option Nat) (n : Nat) (t : Block Scope)
    (st st' : Nesting.State Int) (ops : List TimerOp) : Prop where
  run : Transition.run bracketStep st ops = some st'
  inv : Nesting.Inv st'
  running : st'.running = st.running
  enclosers : st'.spans.map (·.encloser) = st.spans.map (·.encloser) ++ t.enclosers p n
  later : ∀ time, st.later time → (∀ op ∈ reads stopped ops, op.now < time) → st'.later time

theorem Performs.length {stopped : List Nat} {p : Option Nat} {n : Nat} {t : Block Scope}
    {st st' : Nesting.State Int} {ops : List TimerOp} (h : Performs stopped p n t st st' ops) :
    st'.spans.length = st.spans.length + t.size := by
  simpa using congrArg List.length h.enclosers

theorem event_tick (n : Nat) (e : TimerEvent) : (e.tick n).event = e := by
  cases e with
  | construct name parent => rfl
  | stop i => rfl

theorem now_tick (n : Nat) (e : TimerEvent) : (e.tick n).now = n := by
  cases e with
  | construct name parent => rfl
  | stop i => rfl

theorem map_event_clocked (events : List TimerEvent) :
    (clocked events).map TimerOp.event = events := by
  apply List.ext_getElem?
  intro k
  rw [List.getElem?_map, clocked, List.getElem?_mapIdx, Option.map_map]
  simp [Function.comp_def, event_tick]

theorem reads_sublist (stopped : List Nat) (ops : List TimerOp) :
    (reads stopped ops).Sublist ops := by
  induction ops generalizing stopped with
  | nil => exact .slnil
  | cons op ops ih =>
      cases op with
      | construct name parent reading => exact (ih stopped).cons_cons _
      | stop i reading =>
          rw [reads]
          split
          · exact (ih stopped).cons _
          · exact (ih _).cons_cons _

theorem rising_clocked (events : List TimerEvent) : Rising (clocked events) := by
  refine List.Pairwise.sublist (reads_sublist [] _) (List.pairwise_iff_getElem.mpr ?_)
  intro i j hi hj hlt
  simp only [clocked, List.getElem_mapIdx, now_tick]
  exact Int.ofNat_lt.mpr hlt

/-- What is read behind some operations depends on the timers that they stop. -/
theorem exists_reads_append (stopped : List Nat) (ops ops' : List TimerOp) :
    ∃ stopped', reads stopped (ops ++ ops') = reads stopped ops ++ reads stopped' ops' ∧
      ∀ i, i ∈ stopped' ↔ i ∈ stopped ∨ .stop i ∈ ops.map TimerOp.event := by
  induction ops generalizing stopped with
  | nil => exact ⟨stopped, rfl, by simp⟩
  | cons op ops ih =>
      cases op with
      | construct name parent reading =>
          obtain ⟨stopped', heq, hmem⟩ := ih stopped
          refine ⟨stopped', by rw [List.cons_append, reads, heq, reads, List.cons_append], ?_⟩
          simpa [TimerOp.event] using hmem
      | stop k reading =>
          rw [List.cons_append, reads, reads]
          split
          · rename_i hk
            obtain ⟨stopped', heq, hmem⟩ := ih stopped
            refine ⟨stopped', heq, fun i => ?_⟩
            rw [hmem, List.map_cons, List.mem_cons]
            constructor
            · exact Or.imp_right .inr
            · rintro (hi | hi | hi)
              · exact .inl hi
              · cases hi
                exact .inl hk
              · exact .inr hi
          · obtain ⟨stopped', heq, hmem⟩ := ih (k :: stopped)
            refine ⟨stopped', by rw [heq, List.cons_append], fun i => ?_⟩
            rw [hmem, List.map_cons, List.mem_cons, List.mem_cons, TimerOp.event,
              TimerEvent.stop.injEq, or_assoc, or_left_comm]

/-- The timers of a block are numbered from the first on. -/
theorem stop_mem_events {t : Block Scope} {p : Option Nat} {n i : Nat}
    (h : .stop i ∈ events p n t) : n ≤ i ∧ i < n + t.size := by
  induction t generalizing p n with
  | nil => cases h
  | block scope inner rest ihInner ihRest =>
      simp only [events, List.mem_cons, List.mem_append, reduceCtorEq, TimerEvent.stop.injEq,
        false_or, Block.size] at h ⊢
      rcases h with h | rfl | h | h
      · have := ihInner h
        omega
      · omega
      · have := ihRest h
        omega
      · split at h
        · rw [List.mem_singleton, TimerEvent.stop.injEq] at h
          omega
        · cases h

theorem map_encloser_closes (st : Nesting.State Int) (i : Nat) (t : Int) :
    (st.closes i t).spans.map (·.encloser) = st.spans.map (·.encloser) := by
  apply List.ext_getElem?
  intro k
  rw [List.getElem?_map, Nesting.getElem?_closes, Option.map_map, List.getElem?_map]
  rfl

/-- A timer that is not running can be stopped again. -/
theorem run_stop_again {st : Nesting.State Int} {i : Nat} (hi : i < st.spans.length)
    (hnot : i ∉ st.running) {early : Bool} {ops : List TimerOp}
    (hops : ops.map TimerOp.event = if early then [.stop i] else []) :
    Transition.run bracketStep st ops = some st := by
  cases early with
  | false =>
      rw [if_neg nofun, List.map_eq_nil_iff] at hops
      rw [hops, Transition.run_nil]
  | true =>
      rw [if_pos rfl, List.map_eq_singleton_iff] at hops
      obtain ⟨op, rfl, hop⟩ := hops
      cases op with
      | construct name parent reading => cases hop
      | stop k reading =>
          cases hop
          have hhead : st.running.head? ≠ some i := fun h => hnot (List.mem_of_mem_head? h)
          rw [Transition.run_cons, bracketStep, if_neg hhead, if_pos ⟨hi, hnot⟩]
          rfl

section

variable {st st' : Nesting.State Int} {n : Nat} {op : TimerOp}

/-- A constructor opens a span, whether or not it is given the timer around it. -/
theorem bracketStep_construct {p : Option Nat} {name : String} {linked : Bool}
    (hop : op.event = .construct name (if linked then p else none))
    (hp : st.running.head? = p) (hlater : st.later op.now) :
    bracketStep st op = some (st.opens op.now) := by
  cases op with
  | stop i reading => cases hop
  | construct name parent reading =>
      cases hop
      have hparent : (if linked then p else none) = none ∨
          (if linked then p else none) = st.running.head? := by
        split
        · exact .inr hp.symm
        · exact .inl rfl
      exact if_pos ⟨hlater, hparent⟩

/-- The stop of the innermost timer closes its span. -/
theorem bracketStep_stop (hop : op.event = .stop n) (hhead : st.running.head? = some n)
    (hlater : st.later op.now) : bracketStep st op = some (st.closes n op.now) := by
  cases op with
  | construct name parent reading => cases hop
  | stop i reading =>
      cases hop
      rw [bracketStep, if_pos hhead]
      exact if_pos hlater

/-- Behind the blocks inside a block, its own timer is the innermost one. -/
theorem Performs.head? {stopped : List Nat} {p : Option Nat} {inner : Block Scope} {start : Int}
    {ops : List TimerOp} (h : Performs stopped p (n + 1) inner (st.opens start) st' ops)
    (hn : st.spans.length = n) : st'.running.head? = some n := by
  rw [h.running]
  simp [Nesting.State.opens, hn]

/-- Closing it leaves what was running before. -/
theorem Performs.running_closes {stopped : List Nat} {p : Option Nat} {inner : Block Scope}
    {start : Int} {ops : List TimerOp}
    (h : Performs stopped p (n + 1) inner (st.opens start) st' ops) (stop : Int) :
    (st'.closes n stop).running = st.running := by
  show st'.running.tail = st.running
  rw [h.running]
  rfl

theorem Performs.length_closes {stopped : List Nat} {p : Option Nat} {inner : Block Scope}
    {start : Int} {ops : List TimerOp}
    (h : Performs stopped p (n + 1) inner (st.opens start) st' ops) (hn : st.spans.length = n)
    (stop : Int) :
    (st'.closes n stop).spans.length = n + 1 + inner.size := by
  have hlength := h.length
  simp only [Nesting.State.opens, List.length_append, List.length_singleton] at hlength
  simp only [Nesting.State.closes, List.length_modify]
  omega

end

/-- What the operations of a block read: the constructor, what the blocks inside read, the
first stop, and what the blocks after it read. -/
theorem exists_reads_block {stopped : List Nat} {n : Nat} {p p' : Option Nat} {name : String}
    {parent : Option Nat} {inner rest : Block Scope} {early : Bool} {first last : TimerOp}
    {opsInner opsRest opsAgain : List TimerOp} (hstopped : ∀ i ∈ stopped, i < n)
    (hfirst : first.event = .construct name parent)
    (hinner : opsInner.map TimerOp.event = events p (n + 1) inner)
    (hlast : last.event = .stop n)
    (hrest : opsRest.map TimerOp.event = events p' (n + 1 + inner.size) rest)
    (hagain : opsAgain.map TimerOp.event = if early then [.stop n] else []) :
    ∃ stopped', (∀ i ∈ stopped', i < n + 1 + inner.size) ∧
      reads stopped (first :: (opsInner ++ last :: (opsRest ++ opsAgain))) =
        first :: (reads stopped opsInner ++ last :: reads stopped' opsRest) := by
  obtain ⟨stopped₁, heq₁, hmem₁⟩ := exists_reads_append stopped opsInner
    (last :: (opsRest ++ opsAgain))
  obtain ⟨stopped₂, heq₂, hmem₂⟩ := exists_reads_append (n :: stopped₁) opsRest opsAgain
  have hmem₁' : ∀ i ∈ stopped₁, i ≠ n ∧ i < n + 1 + inner.size := by
    intro i hi
    rcases (hmem₁ i).mp hi with hi | hi
    · have := hstopped i hi
      omega
    · have := stop_mem_events (hinner ▸ hi)
      omega
  refine ⟨n :: stopped₁, ?_, ?_⟩
  · intro i hi
    rcases List.mem_cons.mp hi with rfl | hi
    · omega
    · exact (hmem₁' i hi).2
  -- nothing is read when the timer is stopped again
  have hagain' : reads stopped₂ opsAgain = [] := by
    cases early with
    | false =>
        rw [if_neg nofun, List.map_eq_nil_iff] at hagain
        rw [hagain, reads]
    | true =>
        rw [if_pos rfl, List.map_eq_singleton_iff] at hagain
        obtain ⟨op, rfl, hop⟩ := hagain
        cases op with
        | construct name parent reading => cases hop
        | stop k reading =>
            cases hop
            rw [reads, if_pos ((hmem₂ n).mpr (.inl List.mem_cons_self)), reads]
  cases first with
  | stop k reading => cases hfirst
  | construct name' parent' reading =>
      cases last with
      | construct name'' parent'' reading' => cases hlast
      | stop k reading' =>
          cases hlast
          rw [reads, heq₁, reads, if_neg fun hn => (hmem₁' n hn).1 rfl, heq₂, hagain',
            List.append_nil]

/-- The run of the blocks, by induction on them. -/
theorem exists_performs (t : Block Scope) :
    ∀ {stopped : List Nat} {p : Option Nat} {n : Nat} {st : Nesting.State Int}
      {ops : List TimerOp}, ops.map TimerOp.event = events p n t → Nesting.Inv st →
      st.running.head? = p → st.spans.length = n → (∀ i ∈ stopped, i < n) →
      ((reads stopped ops).Pairwise fun a b => a.now < b.now) →
      (∀ op ∈ reads stopped ops, st.later op.now) → ∃ st', Performs stopped p n t st st' ops := by
  induction t with
  | nil =>
      intro stopped p n st ops hops hinv hp hn hstopped hrising hlater
      obtain rfl := List.map_eq_nil_iff.mp hops
      exact ⟨st, rfl, hinv, rfl, by simp [Block.enclosers], fun time h _ => h⟩
  | block scope inner rest ihInner ihRest =>
      intro stopped p n st ops hops hinv hp hn hstopped hrising hlater
      -- the constructor, the blocks inside, the stop, the blocks after it, and a second stop
      obtain ⟨first, ops₁, rfl, hfirst, hops₁⟩ := List.map_eq_cons_iff.mp hops
      obtain ⟨opsInner, ops₂, rfl, hinner, hops₂⟩ := List.map_eq_append_iff.mp hops₁
      obtain ⟨last, ops₃, rfl, hlast, hops₃⟩ := List.map_eq_cons_iff.mp hops₂
      obtain ⟨opsRest, opsAgain, rfl, hrest, hagain⟩ := List.map_eq_append_iff.mp hops₃
      obtain ⟨stopped', hstopped', hreads⟩ :=
        exists_reads_block hstopped hfirst hinner hlast hrest hagain
      rw [hreads] at hrising hlater
      have hmem : ∀ op, op ∈ reads stopped opsInner ∨ op = last ∨ op ∈ reads stopped' opsRest →
          op ∈ reads stopped opsInner ++ last :: reads stopped' opsRest := by
        intro op h
        simpa [List.mem_append, List.mem_cons] using h
      simp only [List.pairwise_cons, List.pairwise_append] at hrising
      obtain ⟨hafter, hrisingInner, ⟨hafterLast, hrisingRest⟩, hbefore⟩ := hrising
      have hnot : ∀ {i : Nat}, i ∈ st.running → i ≠ n := by
        intro i hi
        have := hinv.lt_length hi
        omega
      -- the constructor opens a span
      have hopen : bracketStep st first = some (st.opens first.now) :=
        bracketStep_construct hfirst hp (hlater first List.mem_cons_self)
      have hlater₁ : ∀ op ∈ reads stopped opsInner, (st.opens first.now).later op.now := by
        intro op hop
        exact Nesting.later_opens.mpr (hafter op (hmem op (.inl hop)))
      obtain ⟨st₂, h₂⟩ := ihInner hinner (hinv.opens (hlater first List.mem_cons_self))
        (show (st.opens first.now).running.head? = some n by simp [Nesting.State.opens, hn])
        (by simp [Nesting.State.opens, hn]) (fun i hi => Nat.lt_succ_of_lt (hstopped i hi))
        hrisingInner hlater₁
      -- the stop closes it
      have hhead : st₂.running.head? = some n := h₂.head? hn
      have hlaterLast : st₂.later last.now := by
        refine h₂.later _ (Nesting.later_opens.mpr (hafter _ (hmem _ (.inr (.inl rfl))))) ?_
        intro op hop
        exact hbefore op hop last List.mem_cons_self
      have hclose := bracketStep_stop hlast hhead hlaterLast
      have hrunning₃ := h₂.running_closes last.now
      have hlength₃ := h₂.length_closes hn last.now
      have hinv₃ := h₂.inv.closes hlaterLast hhead
      have hlater₃ : ∀ op ∈ reads stopped' opsRest, (st₂.closes n last.now).later op.now := by
        intro op hop
        exact Nesting.later_closes.mpr (hafterLast op hop)
      obtain ⟨st₄, h₄⟩ :=
        ihRest hrest hinv₃ (hrunning₃ ▸ hp) hlength₃ hstopped' hrisingRest hlater₃
      have hrunning₄ : st₄.running = st.running := h₄.running.trans hrunning₃
      -- and a second stop changes nothing
      have hlt : n < st₄.spans.length := by
        have := h₄.length
        omega
      have hstop := run_stop_again hlt (fun hi => hnot (hrunning₄ ▸ hi) rfl) hagain
      refine ⟨st₄, ?_, h₄.inv, hrunning₄, ?_, ?_⟩
      · rw [Transition.run_cons_of_step hopen, Transition.run_append_of_run h₂.run,
          Transition.run_cons_of_step hclose, Transition.run_append_of_run h₄.run, hstop]
      · rw [h₄.enclosers, map_encloser_closes, h₂.enclosers]
        simp [Nesting.State.opens, Block.enclosers, hp, hn]
      · intro time htime hops
        rw [hreads] at hops
        refine h₄.later time (Nesting.later_closes.mpr ?_) ?_
        · exact hops last (List.mem_cons_of_mem _ (hmem last (.inr (.inl rfl))))
        · intro op hop
          exact hops op (List.mem_cons_of_mem _ (hmem op (.inr (.inr hop))))

/-! ## Names and starts -/

/-- The name that a constructor is given. -/
def TimerEvent.name? : TimerEvent → Option String
  | .construct name _ => some name
  | .stop _ => none

theorem filterMap_events (t : Block Scope) (p : Option Nat) (n : Nat) :
    (events p n t).filterMap TimerEvent.name? = t.labels.map Scope.name := by
  induction t generalizing p n with
  | nil => rfl
  | block scope inner rest ihInner ihRest =>
      have hagain : (if scope.early then [TimerEvent.stop n] else []).filterMap
          TimerEvent.name? = [] := by
        split
        · rfl
        · rfl
      simp only [events, Block.labels, List.filterMap_cons, List.filterMap_append,
        TimerEvent.name?, ihInner, ihRest, hagain, List.append_nil, List.map_cons,
        List.map_append]

/-- The name of a record. -/
def nameOf (records : List TimerRecord) (i : Nat) : String :=
  (records[i]?.map (·.name)).getD ""

@[simp] theorem TimerRecord.stop_start (reading : Reading) (record : TimerRecord) :
    (record.stop reading).start = record.start := by
  rw [TimerRecord.stop]
  split
  · rfl
  · rfl

@[simp] theorem TimerRecord.stop_name (reading : Reading) (record : TimerRecord) :
    (record.stop reading).name = record.name := by
  rw [TimerRecord.stop]
  split
  · rfl
  · rfl

/-- A record keeps its name. -/
theorem map_name_timerStep {records records' : List TimerRecord} {op : TimerOp}
    (h : timerStep records op = some records') :
    records'.map (·.name) = records.map (·.name) ++ op.event.name?.toList := by
  have hmodify : ∀ {f : TimerRecord → TimerRecord} {i : Nat}, (∀ r, (f r).name = r.name) →
      (records.modify i f).map (·.name) = records.map (·.name) := by
    intro f i hf
    apply List.ext_getElem?
    intro k
    rw [List.getElem?_map, map_getElem?_modify hf, List.getElem?_map]
  cases op with
  | stop i reading =>
      simp only [timerStep] at h
      split at h
      · cases h
        exact (hmodify fun r => TimerRecord.stop_name reading r).trans (List.append_nil _).symm
      · cases h
  | construct name parent reading =>
      cases parent with
      | none =>
          cases h
          rw [List.map_append]
          rfl
      | some p =>
          simp only [timerStep] at h
          split at h
          · cases h
            rw [List.map_append, pushChild, hmodify (by intro; rfl)]
            rfl
          · cases h

theorem map_name_run {ops : List TimerOp} {records records' : List TimerRecord}
    (h : Transition.run timerStep records ops = some records') :
    records'.map (·.name) =
      records.map (·.name) ++ (ops.map TimerOp.event).filterMap TimerEvent.name? := by
  induction ops generalizing records with
  | nil =>
      cases h
      simp
  | cons op ops ih =>
      rw [Transition.run_cons] at h
      obtain ⟨next, hnext, h⟩ := Option.bind_eq_some_iff.mp h
      rw [ih h, map_name_timerStep hnext, List.map_cons, List.filterMap_cons]
      cases op.event.name? with
      | none => simp
      | some name => simp

/-- What neither a stop nor an adoption changes. -/
theorem map_adoptAll_stopAll {β : Type} {g : TimerRecord → β}
    (hparent : ∀ r p, g { r with parent := some p } = g r)
    (hchildren : ∀ r cs, g { r with children := cs } = g r)
    (hstop : ∀ reading r, g (TimerRecord.stop reading r) = g r) (readings : Nat → Reading)
    (records : List TimerRecord) :
    (adoptAll (stopAll readings records)).map g = records.map g := by
  rw [map_adoptAll hparent hchildren, stopAll]
  apply List.ext_getElem?
  intro k
  rw [List.getElem?_map, List.getElem?_mapIdx, Option.map_map, List.getElem?_map]
  exact congrArg (fun f => Option.map f records[k]?) (funext fun r => hstop (readings k) r)

/-! ## The report -/

section

variable {base : List TimerRecord}

/-- The starts go up with the indices. -/
def StartsRise (base : List TimerRecord) : Prop :=
  ∀ i j, i < j → j < base.length → startOf base i < startOf base j

/-- If the starts go up, the children are printed in the order of their indices. -/
theorem ChildOrder.pairwise_lt (hf : Forest base) (hrise : StartsRise base) {i : Nat}
    {children : List Nat} (h : ChildOrder base i children) : children.Pairwise (· < ·) := by
  have hchild : ∀ c ∈ children, c < base.length := by
    intro c hc
    exact lt_length_of_parentOf (hf.parentOf_of_mem (h.1.mem_iff.mp hc))
  have hnodup : children.Nodup := by
    rw [List.nodup_iff_count_le_one]
    intro c
    rw [h.1.count_eq, hf.count_children]
    split
    · exact Nat.le_refl 1
    · exact Nat.zero_le 1
  refine (h.2.and hnodup).imp_of_mem ?_
  rintro a b ha hb ⟨hle, hne⟩
  by_contra hlt
  have hba : b < a := by omega
  exact absurd (hrise b a hba (hchild a ha)) (not_lt.mpr hle)

/-- So there is one order. -/
theorem ChildOrder.unique (hf : Forest base) (hrise : StartsRise base) (i : Nat)
    (children children' : List Nat) (h : ChildOrder base i children)
    (h' : ChildOrder base i children') : children = children' :=
  (h.1.trans h'.1.symm).eq_of_pairwise (fun _ _ _ _ hab hba => absurd hab (Nat.lt_asymm hba))
    (h.pairwise_lt hf hrise) (h'.pairwise_lt hf hrise)

theorem childOrder_of_pairwise (hf : Forest base) (hrise : StartsRise base) {i : Nat}
    {children : List Nat} (hsorted : children.Pairwise (· < ·))
    (hmem : ∀ c, c ∈ children ↔ parentOf base c = some i) : ChildOrder base i children := by
  constructor
  · rw [List.perm_iff_count]
    intro c
    have hnodup : children.Nodup := hsorted.imp Nat.ne_of_lt
    rw [hf.count_children, hnodup.count]
    simp only [hmem]
  · refine hsorted.imp_of_mem ?_
    intro a b _ hb hlt
    exact (hrise a b hlt (lt_length_of_parentOf ((hmem b).mp hb))).le

/-- The roots of records whose parents are the enclosers of a forest of blocks. -/
theorem roots_eq_tops {α : Type} {t : Block α} (hlength : base.length = t.size)
    (h : Numbered (parentOf base) none 0 t) : roots base = t.tops 0 := by
  have hsorted : (roots base).Pairwise (· < ·) := List.pairwise_lt_range.filter _
  have hperm : (roots base).Perm (t.tops 0) := by
    refine (List.perm_ext_iff_of_nodup (hsorted.imp Nat.ne_of_lt)
      ((Block.pairwise_tops t 0).imp Nat.ne_of_lt)).mpr ?_
    intro c
    rw [roots, List.mem_filter, List.mem_range, hlength, Option.isNone_iff_eq_none]
    constructor
    · rintro ⟨hc, hnone⟩
      exact (mem_tops_iff h hc).mpr hnone
    · intro hmem
      have hc : c < t.size := by
        have := Block.mem_tops hmem
        omega
      exact ⟨hc, (mem_tops_iff h hc).mp hmem⟩
  exact hperm.eq_of_pairwise (fun _ _ _ _ hab hba => absurd hab (Nat.lt_asymm hba)) hsorted
    (Block.pairwise_tops t 0)

/-- The rows of a forest of blocks. -/
theorem rows_of_numbered {t : Block Scope} (hf : Forest base) (hrise : StartsRise base)
    (hlength : base.length = t.size) (hnum : Numbered (parentOf base) none 0 t)
    (hnames : base.map (·.name) = t.labels.map Scope.name) {rows : List Row}
    (hwalk : Outline.Walk (ChildOrder base) (roots base) 0 (rows.map Row.entry))
    (hshows : ∀ row ∈ rows, row.Shows base) :
    rows.map Row.entry = t.entries 0 0 ∧
      rows.map (fun row => (row.name, row.indent)) =
        (t.outline 0).map fun e => (e.1.name, e.2) := by
  have hclosed : Closed (parentOf base) 0 (0 + t.size) := by
    intro c q hq _ _
    have := lt_length_of_parentOf hq
    omega
  have hblocks : Outline.Walk (ChildOrder base) (t.tops 0) 0 (t.entries 0 0) :=
    walk_entries (fun i children hsorted hmem => childOrder_of_pairwise hf hrise hsorted hmem)
      hnum nofun hclosed 0
  rw [roots_eq_tops hlength hnum] at hwalk
  have hentries : rows.map Row.entry = t.entries 0 0 :=
    hwalk.unique (ChildOrder.unique hf hrise) hblocks
  have hname : ∀ row ∈ rows, row.name = nameOf base row.index := by
    intro row hrow
    obtain ⟨record, hrecord, heq⟩ := hshows row hrow
    rw [nameOf, hrecord, heq]
    rfl
  refine ⟨hentries, ?_⟩
  calc rows.map (fun row => (row.name, row.indent))
      = (rows.map Row.entry).map fun e => (nameOf base e.1, e.2) := by
        rw [List.map_map]
        exact List.map_congr_left fun row hrow => by simp [hname row hrow, Row.entry]
    _ = (t.entries 0 0).map fun e => (nameOf base e.1, e.2) := by rw [hentries]
    _ = (t.outline 0).map fun e => (e.1.name, e.2) := by
        refine Block.map_entries Scope.name (nameOf base) t 0 0 ?_
        intro k scope hk
        have hk' := congrArg (fun l : List String => l[k]?) hnames
        simp only [List.getElem?_map, hk, Option.map_some] at hk'
        rw [Nat.zero_add, nameOf, hk', Option.getD_some]

end

/-- The starts of nested timers go up. -/
theorem Tracks.startsRise {st : Nesting.State Int} {records : List TimerRecord}
    (h : Tracks st records) (hinv : Nesting.Inv st) (readings : Nat → Reading) :
    StartsRise (adoptAll (stopAll readings records)) := by
  have hstarts := map_adoptAll_stopAll (g := (·.start)) (fun _ _ => rfl) (fun _ _ => rfl)
    TimerRecord.stop_start readings records
  have hstart : ∀ (i : Nat) (span : Nesting.Span Int), st.spans[i]? = some span →
      startOf (adoptAll (stopAll readings records)) i = span.start := by
    intro i span hspan
    obtain ⟨record, hr, hfollows⟩ := h.follows i span hspan
    rw [startOf, ← List.getElem?_map, hstarts, List.getElem?_map, hr]
    exact hfollows.start
  intro i j hlt hj
  have hlength : (adoptAll (stopAll readings records)).length = st.spans.length := by
    rw [length_adoptAll, stopAll, List.length_mapIdx, h.length]
  have hspan := List.getElem?_eq_getElem (hlength ▸ hj)
  have hspan' := List.getElem?_eq_getElem (l := st.spans) (i := i) (by omega)
  rw [hstart i _ hspan', hstart j _ hspan]
  exact hinv.start_lt hlt hspan hspan'

/-- The rows for the timers of nested blocks. -/
theorem exists_rows (s : UnstableSort) {t : Block Scope} {ops : List TimerOp}
    (hops : ops.map TimerOp.event = events none 0 t) (hclock : Rising ops)
    (readings : Nat → Reading) :
    ∃ records printed report, Transition.run timerStep [] ops = some records ∧
      printTimerRecords s readings records = some (printed, report) ∧
      report.rows.map Row.entry = t.entries 0 0 ∧
      report.rows.map (fun row => (row.name, row.indent)) =
        (t.outline 0).map fun e => (e.1.name, e.2) := by
  have hinit : Nesting.Inv ({} : Nesting.State Int) := .init
  obtain ⟨st, hperforms⟩ :=
    exists_performs t hops hinit rfl rfl (fun _ hi => absurd hi List.not_mem_nil) hclock
      fun op _ => rfl
  obtain ⟨records, hrun, hinv, htracks⟩ := tracks_of_run hperforms.run
  have hforest : Forest records :=
    Transition.run_invariant Forest (fun _ _ _ hf h => hf.timerStep h) forest_nil hrun
  have hquiet := quiet_adoptAll hforest readings
  obtain ⟨printed, rows, hprint, -, hwalk, hshows⟩ := (printRoots_spec s hquiet.forest).ok
  refine ⟨records, printed, ⟨reportHeader, rows⟩, hrun, ?_, ?_⟩
  · simp only [printTimerRecords, hprint]
    rfl
  · have hlength : (adoptAll (stopAll readings records)).length = t.size := by
      rw [length_adoptAll, stopAll, List.length_mapIdx, htracks.length, hperforms.length]
      simp
    have hnum : Numbered (parentOf (adoptAll (stopAll readings records))) none 0 t := by
      refine numbered_of_enclosers fun k e he => ?_
      have henc : st.spans.map (·.encloser) = t.enclosers none 0 := hperforms.enclosers
      rw [← henc, List.getElem?_map, Option.map_eq_some_iff] at he
      obtain ⟨span, hspan, rfl⟩ := he
      rw [Nat.zero_add]
      exact htracks.parentOf_adoptAll hinv hperforms.running readings hspan
    have hnames : (adoptAll (stopAll readings records)).map (·.name) = t.labels.map Scope.name := by
      rw [map_adoptAll_stopAll (fun _ _ => rfl) (fun _ _ => rfl) TimerRecord.stop_name,
        map_name_run hrun, hops, filterMap_events]
      rfl
    exact rows_of_numbered hquiet.forest (htracks.startsRise hinv readings) hlength hnum hnames
      hwalk hshows

/-- The timers of nested blocks are reported as the blocks are written: one row per
timer, in the order of the constructors, indented by the number of blocks around it.
Which timers are given their parent and which are stopped by hand does not show. -/
theorem report_scopes (s : UnstableSort) (t : Block Scope) {ops : List TimerOp}
    (hops : ops.map TimerOp.event = events none 0 t) (hclock : Rising ops)
    (readings : Nat → Reading) :
    ∃ records printed report, Transition.run timerStep [] ops = some records ∧
      printTimerRecords s readings records = some (printed, report) ∧
      report.rows.map Row.index = List.range t.size ∧
      report.rows.map (fun row => (row.name, row.indent)) =
        (t.outline 0).map fun e => (e.1.name, e.2) := by
  obtain ⟨records, printed, report, hrun, hprint, hentries, hrows⟩ :=
    exists_rows s hops hclock readings
  refine ⟨records, printed, report, hrun, hprint, ?_, hrows⟩
  rw [List.range_eq_range', ← Block.map_fst_entries t 0 0, ← hentries, List.map_map]
  rfl

/-- The timers of `split_segments`: two inside the first, both linked to it, and one of
them stopped by hand. -/
def splitScopes : Block Scope :=
  .block { name := "split segments" }
    (.block { name := "image processing", linked := true, early := true } .nil
      (.block { name := "grouping", linked := true } .nil .nil)) .nil

/-- Their operations, with the second stop of "image processing" at the end of the block,
which reads no clock. -/
def splitOps : List TimerOp :=
  [.construct "split segments" none ⟨0, 0, 0⟩, .construct "image processing" (some 0) ⟨1, 0, 0⟩,
    .stop 1 ⟨2, 0, 0⟩, .construct "grouping" (some 0) ⟨3, 0, 0⟩, .stop 2 ⟨4, 0, 0⟩,
    .stop 1 ⟨0, 0, 0⟩, .stop 0 ⟨6, 0, 0⟩]

theorem report_scopes_split :
    ∃ records printed report, Transition.run timerStep [] splitOps = some records ∧
      printTimerRecords stableSort (fun _ => ⟨7, 0, 0⟩) records = some (printed, report) ∧
      report.rows.map Row.index = List.range 3 ∧
      report.rows.map (fun row => (row.name, row.indent)) =
        [("split segments", 0), ("image processing", 1), ("grouping", 1)] :=
  @report_scopes stableSort splitScopes splitOps rfl (by unfold Rising; decide)
    fun _ => ⟨7, 0, 0⟩

end Gazosan
