import Gazosan.Library.Transition
import Mathlib.Data.List.Count

/-!
# Timer records

The records behind the timers of `perf.cc`.  A record points to its parent and
each parent lists its children, and pointers are indices into
`ctx.timer_records`.  A parent is given to the constructor or found when the
report is printed: a record without a parent is adopted by the last record
before it whose time interval contains its own.

`Forest` is what the links satisfy at any time: a parent is older than its
child, and the list of children of a record holds the records with that parent,
each once.  Construction and adoption are one operation on the links,
`attach`, which keeps it (`Forest.attach`).
-/

namespace Gazosan

/-- `TimerRecord`.  The field `finish` is `end` in the source. -/
structure TimerRecord where
  name : String
  parent : Option Nat
  children : List Nat := []
  start : Int
  finish : Int := 0
  user : Int
  sys : Int
  stopped : Bool := false
deriving DecidableEq, Repr

/-- What `now_nsec` and `get_usage` return. -/
structure Reading where
  now : Int
  user : Int
  sys : Int
deriving DecidableEq, Repr

/-- `TimerRecord::stop`. -/
def TimerRecord.stop (reading : Reading) (record : TimerRecord) : TimerRecord :=
  if record.stopped then record
  else
    { record with
      stopped := true
      finish := reading.now
      user := reading.user - record.user
      sys := reading.sys - record.sys }

/-- `children.push_back` on one record. -/
def pushChild (records : List TimerRecord) (p child : Nat) : List TimerRecord :=
  records.modify p fun record => { record with children := record.children ++ [child] }

/-- What the program does with its timers before the report. -/
inductive TimerOp where
  /-- The constructor of `Timer`. -/
  | construct (name : String) (parent : Option Nat) (reading : Reading)
  /-- `Timer::stop`, also called by the destructor. -/
  | stop (i : Nat) (reading : Reading)
deriving DecidableEq, Repr

/-- One operation.  A timer it names has to exist. -/
def timerStep (records : List TimerRecord) : TimerOp → Option (List TimerRecord)
  | .construct name parent reading =>
      let record : TimerRecord :=
        { name, parent, start := reading.now, user := reading.user, sys := reading.sys }
      match parent with
      | none => some (records ++ [record])
      | some p =>
          if p < records.length then some (pushChild records p records.length ++ [record])
          else none
  | .stop i reading =>
      if i < records.length then some (records.modify i (·.stop reading)) else none

/-! ## Adoption -/

/-- The inner loop of `print_timer_records`: the last record before index `j`
whose interval contains that of `inner`. -/
def findOuter (records : List TimerRecord) (inner : TimerRecord) : Nat → Option Nat
  | 0 => none
  | j + 1 =>
      match records[j]? with
      | none => findOuter records inner j
      | some outer =>
          if outer.start ≤ inner.start ∧ inner.finish ≤ outer.finish then some j
          else findOuter records inner j

/-- Set the parent of one record. -/
def setParent (records : List TimerRecord) (i p : Nat) : List TimerRecord :=
  records.modify i fun record => { record with parent := some p }

/-- Link record `i` below record `p`. -/
def attach (records : List TimerRecord) (i p : Nat) : List TimerRecord :=
  pushChild (setParent records i p) p i

/-- The body of the outer loop. -/
def adoptOne (records : List TimerRecord) (i : Nat) : List TimerRecord :=
  match records[i]? with
  | none => records
  | some inner =>
      if inner.parent.isSome then records
      else
        match findOuter records inner i with
        | none => records
        | some j => attach records i j

/-- The outer loop. -/
def adoptAll (records : List TimerRecord) : List TimerRecord :=
  (List.range records.length).foldl adoptOne records

/-- The first loop: stop every record. -/
def stopAll (readings : Nat → Reading) (records : List TimerRecord) : List TimerRecord :=
  records.mapIdx fun i record => record.stop (readings i)

/-! ## Links -/

/-- The parent of a record. -/
def parentOf (records : List TimerRecord) (i : Nat) : Option Nat := records[i]?.bind (·.parent)

/-- The children of a record, in the order of the vector. -/
def childrenOf (records : List TimerRecord) (i : Nat) : List Nat :=
  (records[i]?.map (·.children)).getD []

/-- The start of a record. -/
def startOf (records : List TimerRecord) (i : Nat) : Int := (records[i]?.map (·.start)).getD 0

/-- Parents are older than their children, and parents and children mirror each
other. -/
structure Forest (records : List TimerRecord) : Prop where
  parent_lt : ∀ i p, parentOf records i = some p → p < i
  count_children : ∀ p i,
    (childrenOf records p).count i = if parentOf records i = some p then 1 else 0

theorem lt_length_of_parentOf {records : List TimerRecord} {i p : Nat}
    (h : parentOf records i = some p) : i < records.length := by
  obtain ⟨record, hr, -⟩ := Option.bind_eq_some_iff.mp h
  exact (List.getElem?_eq_some_iff.mp hr).1

theorem Forest.parentOf_of_mem {records : List TimerRecord} (hf : Forest records) {p i : Nat}
    (h : i ∈ childrenOf records p) : parentOf records i = some p := by
  by_contra hne
  have := hf.count_children p i
  rw [if_neg hne] at this
  exact List.count_eq_zero.mp this h

/-- The forest looks at the links only. -/
theorem Forest.congr {records records' : List TimerRecord} (hf : Forest records)
    (hp : ∀ i, parentOf records' i = parentOf records i)
    (hc : ∀ i, (childrenOf records' i).Perm (childrenOf records i)) : Forest records' where
  parent_lt i p h := hf.parent_lt i p (hp i ▸ h)
  count_children p i := by rw [(hc p).count_eq, hp i, hf.count_children p i]

/-- A change of one record keeps what it keeps of a record. -/
theorem map_getElem?_modify {β : Type} {f : TimerRecord → TimerRecord} {g : TimerRecord → β}
    (h : ∀ r, g (f r) = g r) (records : List TimerRecord) (i k : Nat) :
    (records.modify i f)[k]?.map g = records[k]?.map g := by
  rw [List.getElem?_modify]
  cases records[k]? with
  | none => rfl
  | some record =>
      by_cases hk : i = k
      · simp [hk, h]
      · simp [hk]

theorem parentOf_modify {f : TimerRecord → TimerRecord} (hf : ∀ r, (f r).parent = r.parent)
    (records : List TimerRecord) (i k : Nat) :
    parentOf (records.modify i f) k = parentOf records k := by
  have hjoin : ∀ l : List TimerRecord, parentOf l k = (l[k]?.map (·.parent)).bind id := by
    intro l
    rw [parentOf, Option.bind_map]
    rfl
  rw [hjoin, hjoin, map_getElem?_modify hf]

theorem childrenOf_modify {f : TimerRecord → TimerRecord} (hf : ∀ r, (f r).children = r.children)
    (records : List TimerRecord) (i k : Nat) :
    childrenOf (records.modify i f) k = childrenOf records k := by
  rw [childrenOf, childrenOf, map_getElem?_modify hf]

@[simp] theorem parentOf_pushChild (records : List TimerRecord) (p child k : Nat) :
    parentOf (pushChild records p child) k = parentOf records k :=
  parentOf_modify (by intro; rfl) records p k

@[simp] theorem childrenOf_setParent (records : List TimerRecord) (i p k : Nat) :
    childrenOf (setParent records i p) k = childrenOf records k :=
  childrenOf_modify (by intro; rfl) records i k

@[simp] theorem length_setParent (records : List TimerRecord) (i p : Nat) :
    (setParent records i p).length = records.length :=
  List.length_modify ..

@[simp] theorem length_attach (records : List TimerRecord) (i p : Nat) :
    (attach records i p).length = records.length := by
  simp [attach, pushChild]

theorem parentOf_setParent {records : List TimerRecord} {i : Nat} (hi : i < records.length)
    (p k : Nat) :
    parentOf (setParent records i p) k = if k = i then some p else parentOf records k := by
  by_cases h : k = i
  · subst h
    simp [parentOf, setParent, List.getElem?_eq_getElem hi]
  · simp [parentOf, setParent, List.getElem?_modify_ne _ _ (Ne.symm h), h]

theorem childrenOf_pushChild {records : List TimerRecord} {p : Nat} (hp : p < records.length)
    (child k : Nat) :
    childrenOf (pushChild records p child) k =
      if k = p then childrenOf records k ++ [child] else childrenOf records k := by
  by_cases h : k = p
  · subst h
    simp [childrenOf, pushChild, hp]
  · simp [childrenOf, pushChild, List.getElem?_modify_ne _ _ (Ne.symm h), h]

theorem parentOf_attach {records : List TimerRecord} {i : Nat} (hi : i < records.length)
    (p k : Nat) :
    parentOf (attach records i p) k = if k = i then some p else parentOf records k := by
  rw [attach, parentOf_pushChild, parentOf_setParent hi]

theorem childrenOf_attach {records : List TimerRecord} {p : Nat} (hp : p < records.length)
    (i k : Nat) :
    childrenOf (attach records i p) k =
      if k = p then childrenOf records k ++ [i] else childrenOf records k := by
  rw [attach, childrenOf_pushChild (by rwa [length_setParent]), childrenOf_setParent]

/-- Linking a record without a parent below an older one. -/
theorem Forest.attach {records : List TimerRecord} (hf : Forest records) {i p : Nat}
    (hi : i < records.length) (hroot : parentOf records i = none) (hlt : p < i) :
    Forest (attach records i p) where
  parent_lt k q h := by
    rw [parentOf_attach hi] at h
    by_cases hk : k = i
    · rw [if_pos hk, Option.some.injEq] at h
      omega
    · rw [if_neg hk] at h
      exact hf.parent_lt k q h
  count_children q k := by
    have hcount := hf.count_children q k
    rw [parentOf_attach hi, childrenOf_attach (Nat.lt_trans hlt hi)]
    by_cases hq : q = p
    · rw [if_pos hq, List.count_append, hcount]
      by_cases hk : k = i
      · simp [hk, hroot, hq]
      · simp [hk, Ne.symm hk]
    · rw [if_neg hq, hcount]
      by_cases hk : k = i
      · simp [hk, hroot, Ne.symm hq]
      · simp [hk]

/-! ## Operations keep the forest -/

theorem forest_nil : Forest [] := ⟨nofun, fun _ _ => rfl⟩

theorem parentOf_concat (records : List TimerRecord) {record : TimerRecord}
    (h : record.parent = none) (k : Nat) :
    parentOf (records ++ [record]) k = parentOf records k := by
  rcases Nat.lt_trichotomy k records.length with hk | rfl | hk
  · rw [parentOf, List.getElem?_append_left hk, parentOf]
  · simp [parentOf, h]
  · rw [parentOf, parentOf, List.getElem?_eq_none (by simp; omega),
      List.getElem?_eq_none (by omega)]

theorem childrenOf_concat (records : List TimerRecord) {record : TimerRecord}
    (h : record.children = []) (k : Nat) :
    childrenOf (records ++ [record]) k = childrenOf records k := by
  rcases Nat.lt_trichotomy k records.length with hk | rfl | hk
  · rw [childrenOf, List.getElem?_append_left hk, childrenOf]
  · simp [childrenOf, h]
  · rw [childrenOf, childrenOf, List.getElem?_eq_none (by simp; omega),
      List.getElem?_eq_none (by omega)]

/-- A new record without a parent. -/
theorem Forest.concat {records : List TimerRecord} (hf : Forest records) {record : TimerRecord}
    (hp : record.parent = none) (hc : record.children = []) : Forest (records ++ [record]) :=
  hf.congr (parentOf_concat records hp) fun k => by rw [childrenOf_concat records hc]

/-- A new record below `p` is a new record without a parent that is then linked. -/
theorem pushChild_concat (records : List TimerRecord) {p : Nat} (hp : p < records.length)
    {record : TimerRecord} (h : record.parent = some p) :
    pushChild records p records.length ++ [record] =
      attach (records ++ [{ record with parent := none }]) records.length p := by
  cases record with
  | mk name parent children start finish user sys stopped =>
      cases h
      apply List.ext_getElem?
      intro k
      simp only [attach, setParent, pushChild, List.getElem?_modify]
      rcases Nat.lt_trichotomy k records.length with hk | rfl | hk
      · rw [List.getElem?_append_left (by simpa using hk), List.getElem?_append_left hk,
          List.getElem?_modify]
        simp [show records.length ≠ k by omega]
      · simp [Nat.ne_of_lt hp]
      · rw [List.getElem?_eq_none (by simp; omega), List.getElem?_eq_none (by simp; omega)]
        rfl

@[simp] theorem TimerRecord.stop_parent (reading : Reading) (record : TimerRecord) :
    (record.stop reading).parent = record.parent := by
  rw [TimerRecord.stop]
  split
  · rfl
  · rfl

@[simp] theorem TimerRecord.stop_children (reading : Reading) (record : TimerRecord) :
    (record.stop reading).children = record.children := by
  rw [TimerRecord.stop]
  split
  · rfl
  · rfl

/-- Every operation keeps the forest. -/
theorem Forest.timerStep {records records' : List TimerRecord} {op : TimerOp}
    (hf : Forest records) (h : timerStep records op = some records') : Forest records' := by
  cases op with
  | stop i reading =>
      simp only [Gazosan.timerStep] at h
      split at h
      · cases h
        refine hf.congr ?_ ?_
        · exact parentOf_modify (fun r => TimerRecord.stop_parent reading r) records i
        · intro k
          rw [childrenOf_modify fun r => TimerRecord.stop_children reading r]
      · cases h
  | construct name parent reading =>
      cases parent with
      | none =>
          cases h
          exact hf.concat rfl rfl
      | some p =>
          simp only [Gazosan.timerStep] at h
          split at h
          · rename_i hp
            cases h
            rw [pushChild_concat records hp rfl]
            refine (hf.concat rfl rfl).attach (by simp) ?_ hp
            rw [parentOf_concat records rfl, parentOf, List.getElem?_eq_none (Nat.le_refl _)]
            rfl
          · cases h

/-! ## Adoption keeps the forest -/

theorem findOuter_lt {records : List TimerRecord} {inner : TimerRecord} :
    ∀ {i j : Nat}, findOuter records inner i = some j → j < i
  | 0, _, h => by cases h
  | i + 1, j, h => by
      rw [findOuter] at h
      split at h
      · exact Nat.lt_succ_of_lt (findOuter_lt h)
      · split at h
        · cases h
          exact Nat.lt_succ_self i
        · exact Nat.lt_succ_of_lt (findOuter_lt h)

theorem parentOf_eq {records : List TimerRecord} {i : Nat} {record : TimerRecord}
    (h : records[i]? = some record) : parentOf records i = record.parent := by
  rw [parentOf, h, Option.bind_some]

/-- What one round of the loop does. -/
theorem adoptOne_cases (records : List TimerRecord) (i : Nat) :
    (∃ inner j, records[i]? = some inner ∧ inner.parent = none ∧
        findOuter records inner i = some j ∧ adoptOne records i = attach records i j) ∨
      (∀ inner, records[i]? = some inner → inner.parent = none →
        findOuter records inner i = none) ∧ adoptOne records i = records := by
  rw [adoptOne]
  cases hr : records[i]? with
  | none => exact .inr ⟨nofun, rfl⟩
  | some inner =>
      cases hp : inner.parent with
      | some p =>
          refine .inr ⟨?_, by simp [hp]⟩
          rintro _ ⟨⟩ hnone
          rw [hp] at hnone
          cases hnone
      | none =>
          cases hj : findOuter records inner i with
          | none =>
              refine .inr ⟨?_, by simp [hp, hj]⟩
              rintro _ ⟨⟩ _
              exact hj
          | some j => exact .inl ⟨inner, j, rfl, hp, hj, by simp [hp, hj]⟩

theorem Forest.adoptOne {records : List TimerRecord} (hf : Forest records) (i : Nat) :
    Forest (adoptOne records i) := by
  rcases adoptOne_cases records i with ⟨inner, j, hr, hp, hj, heq⟩ | ⟨-, heq⟩
  · rw [heq]
    refine hf.attach (List.getElem?_eq_some_iff.mp hr).1 ?_ (findOuter_lt hj)
    rw [parentOf_eq hr, hp]
  · rw [heq]
    exact hf

theorem Forest.adoptAll {records : List TimerRecord} (hf : Forest records) :
    Forest (adoptAll records) :=
  List.foldlRecOn _ _ hf fun _ hf i _ => hf.adoptOne i

theorem Forest.stopAll {records : List TimerRecord} (hf : Forest records)
    (readings : Nat → Reading) : Forest (stopAll readings records) := by
  refine hf.congr ?_ ?_
  · intro i
    simp only [parentOf, Gazosan.stopAll, List.getElem?_mapIdx]
    cases records[i]? with
    | none => rfl
    | some record => exact TimerRecord.stop_parent (readings i) record
  · intro i
    simp only [childrenOf, Gazosan.stopAll, List.getElem?_mapIdx]
    cases records[i]? with
    | none => rfl
    | some record => simp

/-- The time interval of a record. -/
def TimerRecord.interval (record : TimerRecord) : Int × Int := (record.start, record.finish)

/-- The search looks at the intervals only. -/
theorem findOuter_congr {records records' : List TimerRecord} {inner inner' : TimerRecord}
    (h : records'.map TimerRecord.interval = records.map TimerRecord.interval)
    (hi : inner'.interval = inner.interval) :
    ∀ i, findOuter records' inner' i = findOuter records inner i
  | 0 => rfl
  | j + 1 => by
      have hj : records'[j]?.map TimerRecord.interval = records[j]?.map TimerRecord.interval := by
        rw [← List.getElem?_map, h, List.getElem?_map]
      rw [findOuter, findOuter, findOuter_congr h hi j]
      cases hr : records[j]? with
      | none =>
          rw [hr, Option.map_none, Option.map_eq_none_iff] at hj
          rw [hj]
      | some outer =>
          rw [hr, Option.map_some, Option.map_eq_some_iff] at hj
          obtain ⟨outer', hr', ho⟩ := hj
          simp only [TimerRecord.interval, Prod.mk.injEq] at ho hi
          simp only [hr', ho, hi]

theorem map_modify_of_eq {β : Type} {f : TimerRecord → TimerRecord} {g : TimerRecord → β}
    (h : ∀ r, g (f r) = g r) (records : List TimerRecord) (i : Nat) :
    (records.modify i f).map g = records.map g := by
  apply List.ext_getElem?
  intro k
  rw [List.getElem?_map, List.getElem?_map, map_getElem?_modify h]

/-- What does not look at the links is not changed by linking. -/
theorem map_attach {β : Type} {g : TimerRecord → β}
    (hparent : ∀ r p, g { r with parent := some p } = g r)
    (hchildren : ∀ r cs, g { r with children := cs } = g r) (records : List TimerRecord)
    (i p : Nat) : (attach records i p).map g = records.map g :=
  (map_modify_of_eq (fun r => hchildren r _) _ p).trans
    (map_modify_of_eq (fun r => hparent r p) records i)

theorem interval_attach (records : List TimerRecord) (i p : Nat) :
    (attach records i p).map TimerRecord.interval = records.map TimerRecord.interval :=
  map_attach (fun _ _ => rfl) (fun _ _ => rfl) records i p

/-- If record `i` has no parent, no record before it has an interval around its own. -/
def AdoptedAt (records : List TimerRecord) (i : Nat) : Prop :=
  ∀ inner, records[i]? = some inner → inner.parent = none → findOuter records inner i = none

theorem AdoptedAt.congr {records records' : List TimerRecord} {i : Nat} (h : AdoptedAt records i)
    (hp : parentOf records' i = parentOf records i)
    (hint : records'.map TimerRecord.interval = records.map TimerRecord.interval) :
    AdoptedAt records' i := by
  intro inner' hr' hroot
  have hi : records[i]?.map TimerRecord.interval = some inner'.interval := by
    rw [← List.getElem?_map, ← hint, List.getElem?_map, hr', Option.map_some]
  obtain ⟨inner, hr, heq⟩ := Option.map_eq_some_iff.mp hi
  rw [parentOf_eq hr', parentOf_eq hr, hroot] at hp
  rw [findOuter_congr hint heq.symm]
  exact h inner hr hp.symm

/-- The loop has nothing left to adopt. -/
def FullyAdopted (records : List TimerRecord) : Prop := ∀ i, AdoptedAt records i

/-- A round leaves nothing to adopt at its record, nor where nothing was left before. -/
theorem adoptedAt_adoptOne {records : List TimerRecord} {i k : Nat}
    (h : k = i ∨ AdoptedAt records k) : AdoptedAt (adoptOne records i) k := by
  rcases adoptOne_cases records i with ⟨inner, j, hr, hp, hj, heq⟩ | ⟨hnone, heq⟩
  · have hi := (List.getElem?_eq_some_iff.mp hr).1
    rw [heq]
    by_cases hk : k = i
    · intro inner' hr' hroot
      have hparent := parentOf_attach hi j k
      rw [if_pos hk, parentOf_eq hr', hroot] at hparent
      cases hparent
    · refine AdoptedAt.congr (h.resolve_left hk) ?_ (interval_attach records i j)
      rw [parentOf_attach hi, if_neg hk]
  · rw [heq]
    rcases h with rfl | h
    · exact hnone
    · exact h

theorem adoptedAt_foldl (records : List TimerRecord) :
    ∀ n k, k < n → AdoptedAt ((List.range n).foldl adoptOne records) k
  | 0, _, hk => absurd hk (Nat.not_lt_zero _)
  | n + 1, k, hk => by
      rw [List.range_succ, List.foldl_append]
      rcases Nat.lt_succ_iff_lt_or_eq.mp hk with hk | rfl
      · exact adoptedAt_adoptOne (.inr (adoptedAt_foldl records n k hk))
      · exact adoptedAt_adoptOne (.inl rfl)

/-- What does not look at the links is not changed by adoption. -/
theorem map_adoptAll {β : Type} {g : TimerRecord → β}
    (hparent : ∀ r p, g { r with parent := some p } = g r)
    (hchildren : ∀ r cs, g { r with children := cs } = g r) (records : List TimerRecord) :
    (adoptAll records).map g = records.map g := by
  refine List.foldlRecOn (motive := fun rs : List TimerRecord => rs.map g = records.map g)
    _ _ rfl ?_
  intro rs h i _
  rcases adoptOne_cases rs i with ⟨_, j, -, -, -, heq⟩ | ⟨-, heq⟩
  · rw [heq, map_attach hparent hchildren, h]
  · rw [heq, h]

@[simp] theorem length_adoptAll (records : List TimerRecord) :
    (adoptAll records).length = records.length := by
  have h := congrArg List.length
    (map_adoptAll (g := fun r => r.name) (fun _ _ => rfl) (fun _ _ => rfl) records)
  simpa using h

/-- After the loop nothing is left to adopt. -/
theorem fullyAdopted_adoptAll (records : List TimerRecord) : FullyAdopted (adoptAll records) := by
  intro i inner hr hroot
  have hi := (List.getElem?_eq_some_iff.mp hr).1
  rw [length_adoptAll] at hi
  exact adoptedAt_foldl records records.length i hi inner hr hroot

/-- A second run of the loop adopts nothing. -/
theorem FullyAdopted.adoptAll_eq {records : List TimerRecord} (h : FullyAdopted records) :
    adoptAll records = records := by
  refine List.foldlRecOn (motive := (· = records)) _ _ rfl ?_
  rintro _ rfl i _
  rcases adoptOne_cases _ i with ⟨inner, j, hr, hp, hj, -⟩ | ⟨-, heq⟩
  · rw [h i inner hr hp] at hj
    cases hj
  · exact heq

end Gazosan
