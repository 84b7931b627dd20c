import Gazosan.Library.Transition
import Mathlib.Data.List.Nodup
import Mathlib.Logic.Function.Basic

/-!
# Writers under one lock

Writers put their chunks on one stream.  Each writer acquires a lock, writes its
chunks one after the other, and releases the lock.  It does this once.  The steps of
different writers interleave freely, as far as the lock allows it.

`Serial` says that the stream is nevertheless serial: it holds the chunks of the
writers that are done, one writer after another, and at its end the first chunks of
the writer that holds the lock.  Every step keeps it (`Serial.step`), and as long as
some writer is not done some step is possible (`Serial.progress`).
-/

namespace Locked

variable {ι χ : Type} [DecidableEq ι]

/-- Where a writer stands. -/
inductive Stage where
  | waiting
  /-- It holds the lock and has written so many chunks. -/
  | writing (written : Nat)
  | done
deriving DecidableEq

/-- The number of chunks written under the lock. -/
def Stage.written : Stage → Nat
  | .writing written => written
  | _ => 0

/-- The lock, the writers and the stream. -/
structure State (ι χ : Type) where
  holder : Option ι := none
  stage : ι → Stage := fun _ => .waiting
  stream : List χ := []

/-- The steps of a writer. -/
inductive Act (ι : Type) where
  | acquire (i : ι)
  | write (i : ι)
  | release (i : ι)

/-- The writer that takes the step. -/
def Act.actor : Act ι → ι
  | .acquire i => i
  | .write i => i
  | .release i => i

/-- Move one writer. -/
def State.setStage (s : State ι χ) (i : ι) (stage : Stage) : State ι χ :=
  { s with stage := Function.update s.stage i stage }

variable (chunks : ι → List χ)

/-- One step. -/
def step (s : State ι χ) : Act ι → Option (State ι χ)
  | .acquire i =>
      if s.holder = none ∧ s.stage i = .waiting then
        some { s.setStage i (.writing 0) with holder := some i }
      else none
  | .write i =>
      match s.stage i with
      | .writing written =>
          (chunks i)[written]?.map fun chunk =>
            { s.setStage i (.writing (written + 1)) with stream := s.stream ++ [chunk] }
      | _ => none
  | .release i =>
      if s.stage i = .writing (chunks i).length then
        some { s.setStage i .done with holder := none }
      else none

/-- What is on the stream of the writer that holds the lock. -/
def State.part (s : State ι χ) : List χ :=
  match s.holder with
  | none => []
  | some i => (chunks i).take (s.stage i).written

/-- The stream holds the chunks of the writers in `order`, and those written by the
holder of the lock. -/
structure Serial (s : State ι χ) (order : List ι) : Prop where
  nodup : order.Nodup
  mem_iff : ∀ i, i ∈ order ↔ s.stage i = .done
  writing : ∀ i written, s.stage i = .writing written → s.holder = some i
  holding : ∀ i, s.holder = some i →
    ∃ written, s.stage i = .writing written ∧ written ≤ (chunks i).length
  stream : s.stream = order.flatMap chunks ++ s.part chunks

variable {chunks}

omit [DecidableEq ι] in
theorem serial_init : Serial chunks ({} : State ι χ) [] where
  nodup := .nil
  mem_iff _ := ⟨nofun, nofun⟩
  writing := nofun
  holding := nofun
  stream := rfl

section

variable {s : State ι χ} {order : List ι}

@[simp] theorem setStage_stage (s : State ι χ) (i k : ι) (stage : Stage) :
    (s.setStage i stage).stage k = if k = i then stage else s.stage k :=
  Function.update_apply ..

theorem Serial.acquire (h : Serial chunks s order) {i : ι} (hfree : s.holder = none)
    (hi : s.stage i = .waiting) :
    Serial chunks { s.setStage i (.writing 0) with holder := some i } order where
  nodup := h.nodup
  mem_iff k := by
    rw [h.mem_iff, setStage_stage]
    split
    · rename_i hk
      rw [hk, hi]
      exact ⟨nofun, nofun⟩
    · exact Iff.rfl
  writing k written hk := by
    rw [setStage_stage] at hk
    split at hk
    · rename_i hki
      rw [hki]
    · exact absurd (h.writing k written hk) (by rw [hfree]; nofun)
  holding k hk := by
    cases hk
    exact ⟨0, by simp, Nat.zero_le _⟩
  stream := by
    have hpart : s.part chunks = [] := by rw [State.part, hfree]
    show s.stream = _
    rw [h.stream, hpart]
    simp [State.part, Stage.written]

theorem Serial.write (h : Serial chunks s order) {i : ι} {written : Nat} {chunk : χ}
    (hi : s.stage i = .writing written) (hchunk : (chunks i)[written]? = some chunk) :
    Serial chunks { s.setStage i (.writing (written + 1)) with stream := s.stream ++ [chunk] }
      order where
  nodup := h.nodup
  mem_iff k := by
    rw [h.mem_iff, setStage_stage]
    split
    · rename_i hk
      rw [hk, hi]
      exact ⟨nofun, nofun⟩
    · exact Iff.rfl
  writing k written' hk := by
    rw [setStage_stage] at hk
    split at hk
    · rename_i hki
      rw [hki]
      exact h.writing i written hi
    · exact h.writing k written' hk
  holding k hk := by
    have hki : k = i := by
      have := h.writing i written hi
      rw [show s.holder = some k from hk] at this
      exact Option.some.inj this
    subst hki
    exact ⟨written + 1, by simp, (List.getElem?_eq_some_iff.mp hchunk).1⟩
  stream := by
    have hholder := h.writing i written hi
    have hpart : s.part chunks = (chunks i).take written := by
      rw [State.part, hholder]
      simp only [hi, Stage.written]
    have hpart' : State.part chunks { s.setStage i (.writing (written + 1)) with
        stream := s.stream ++ [chunk] } = (chunks i).take (written + 1) := by
      rw [State.part]
      show (match s.holder with | none => [] | some _ => _) = _
      rw [hholder]
      simp [Stage.written]
    rw [hpart', List.take_add_one, hchunk, ← List.append_assoc, ← hpart, ← h.stream]
    rfl

theorem Serial.release (h : Serial chunks s order) {i : ι}
    (hi : s.stage i = .writing (chunks i).length) :
    Serial chunks { s.setStage i .done with holder := none } (order ++ [i]) where
  nodup := by
    have hnot : i ∉ order := by
      rw [h.mem_iff, hi]
      nofun
    refine List.nodup_append.mpr ⟨h.nodup, List.nodup_singleton i, ?_⟩
    rintro a ha b hb rfl
    rw [List.mem_singleton] at hb
    exact hnot (hb ▸ ha)
  mem_iff k := by
    rw [List.mem_append, List.mem_singleton, h.mem_iff, setStage_stage]
    split
    · rename_i hk
      simp [hk]
    · rename_i hk
      simp [hk]
  writing k written hk := by
    rw [setStage_stage] at hk
    split at hk
    · cases hk
    · rename_i hki
      have := (h.writing k written hk).symm.trans (h.writing i _ hi)
      exact absurd (Option.some.inj this) hki
  holding := nofun
  stream := by
    have hpart : s.part chunks = chunks i := by
      rw [State.part, h.writing i _ hi]
      simp only [hi, Stage.written, List.take_length]
    show s.stream = _
    rw [h.stream, hpart]
    simp [State.part]

theorem step_write {i : ι} {written : Nat} {chunk : χ} (hi : s.stage i = .writing written)
    (hchunk : (chunks i)[written]? = some chunk) :
    Locked.step chunks s (.write i) =
      some { s.setStage i (.writing (written + 1)) with stream := s.stream ++ [chunk] } := by
  simp only [Locked.step, hi, hchunk, Option.map_some]

/-- Every step keeps the stream serial. -/
theorem Serial.step {s' : State ι χ} (h : Serial chunks s order) {a : Act ι}
    (ha : Locked.step chunks s a = some s') : ∃ order', Serial chunks s' order' := by
  cases a with
  | acquire i =>
      simp only [Locked.step] at ha
      split at ha
      · rename_i hguard
        cases ha
        exact ⟨order, h.acquire hguard.1 hguard.2⟩
      · cases ha
  | write i =>
      simp only [Locked.step] at ha
      split at ha
      · rename_i written hi
        obtain ⟨chunk, hchunk, rfl⟩ := Option.map_eq_some_iff.mp ha
        exact ⟨order, h.write hi hchunk⟩
      · cases ha
  | release i =>
      simp only [Locked.step] at ha
      split at ha
      · rename_i hi
        cases ha
        exact ⟨order ++ [i], h.release hi⟩
      · cases ha

/-- A step moves the writer that takes it. -/
theorem stage_of_step {s' : State ι χ} {a : Act ι} (ha : Locked.step chunks s a = some s') {i : ι}
    (hi : i ≠ a.actor) : s'.stage i = s.stage i := by
  cases a with
  | acquire k =>
      simp only [Locked.step] at ha
      split at ha
      · cases ha
        exact (setStage_stage ..).trans (if_neg hi)
      · cases ha
  | write k =>
      simp only [Locked.step] at ha
      split at ha
      · obtain ⟨chunk, -, rfl⟩ := Option.map_eq_some_iff.mp ha
        exact (setStage_stage ..).trans (if_neg hi)
      · cases ha
  | release k =>
      simp only [Locked.step] at ha
      split at ha
      · cases ha
        exact (setStage_stage ..).trans (if_neg hi)
      · cases ha

/-- As long as a writer is not done, it or the holder of the lock can take a step. -/
theorem Serial.progress (h : Serial chunks s order) {i : ι} (hi : s.stage i ≠ .done) :
    ∃ a s', (a.actor = i ∨ s.holder = some a.actor) ∧ Locked.step chunks s a = some s' := by
  cases hholder : s.holder with
  | none =>
      have hwaiting : s.stage i = .waiting := by
        cases hstage : s.stage i with
        | waiting => rfl
        | writing written =>
            rw [h.writing i written hstage] at hholder
            cases hholder
        | done => exact absurd hstage hi
      exact ⟨.acquire i, _, .inl rfl, if_pos ⟨hholder, hwaiting⟩⟩
  | some k =>
      obtain ⟨written, hk, hle⟩ := h.holding k hholder
      rcases Nat.lt_or_eq_of_le hle with hlt | rfl
      · have hchunk := List.getElem?_eq_getElem hlt
        exact ⟨.write k, _, .inr rfl, step_write hk hchunk⟩
      · exact ⟨.release k, _, .inr rfl, if_pos hk⟩

end

end Locked
