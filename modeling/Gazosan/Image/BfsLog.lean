import Gazosan.Image.Grouping

/-!
# What a search does on its way

`bfs_spec` says what a search leaves.  Here the search keeps a log of the points
it puts into the queue, of the markers it reads and writes, and of the iterations
of its loop.  The log does not change the search (`bfsLoopLogged_erase`).

The start is in the queue from the beginning, and every other entry of the queue
is a pixel that has just been cleared.  So the log lists the cleared pixels once,
after the start, and every iteration takes one entry out (`LogInv`).
-/

namespace Gazosan

/-! ## The log -/

/-- What the search has done so far. -/
structure BfsLog where
  /-- The points put into the queue, in their order. -/
  enqueued : List Point
  /-- The positions of `markers` that were read. -/
  read : List Point
  /-- The positions of `markers` that were written. -/
  written : List Point
  /-- The iterations of the loop over the queue. -/
  iterations : Nat

/-- `bfsVisit` with a log. -/
def bfsVisitLogged (p : Point) (s : BfsState × BfsLog) (d : Int × Int) :
    Option (BfsState × BfsLog) :=
  let (st, log) := s
  let n : Point := ⟨p.x + d.2, p.y + d.1⟩
  if d.2 = 0 ∧ d.1 = 0 then some (st, log)
  else if n.x < 0 ∨ n.x ≥ st.markers.cols then some (st, log)
  else if n.y < 0 ∨ n.y ≥ st.markers.rows then some (st, log)
  else do
    let marker ← st.markers.at? n
    let log := { log with read := log.read ++ [n] }
    if marker ≤ 1 then return (st, log)
    else
      let markers ← st.markers.set? n 0
      let log := { log with written := log.written ++ [n] }
      return ({
        markers
        minP := ⟨min st.minP.x n.x, min st.minP.y n.y⟩
        maxP := ⟨max st.maxP.x n.x, max st.maxP.y n.y⟩
        queue := st.queue ++ [n] }, { log with enqueued := log.enqueued ++ [n] })

/-- `bfsLoop` with a log. -/
def bfsLoopLogged : Nat → BfsState × BfsLog → Option (BfsState × BfsLog)
  | 0, _ => none
  | fuel + 1, (st, log) =>
      match st.queue with
      | [] => some (st, log)
      | p :: queue =>
          (offsets.foldlM (bfsVisitLogged p)
            ({ st with queue }, { log with iterations := log.iterations + 1 })).bind
              (bfsLoopLogged fuel)

/-- The variables of the search when its loop begins, and the log of `Q.emplace(sx, sy)`. -/
def bfsStart (markers : Mat Int) (start : Point) : BfsState × BfsLog :=
  (⟨markers, start, start, [start]⟩, ⟨[start], [], [], 0⟩)

/-- The pixels changed to 0 between two states of the markers. -/
def Cleared (markers markers' : Mat Int) : Set Point :=
  {p | markers.at? p ≠ some 0 ∧ markers'.at? p = some 0}

/-! ## The log changes nothing -/

theorem bfsVisitLogged_erase (p : Point) (s : BfsState × BfsLog) (d : Int × Int) :
    (bfsVisitLogged p s d).map Prod.fst = bfsVisit p s.1 d := by
  obtain ⟨st, log⟩ := s
  simp only [bfsVisitLogged, bfsVisit]
  split
  · rfl
  split
  · rfl
  split
  · rfl
  cases st.markers.at? ⟨p.x + d.2, p.y + d.1⟩ with
  | none => rfl
  | some marker =>
      simp only [Option.bind_eq_bind, Option.bind_some]
      split
      · rfl
      · cases st.markers.set? ⟨p.x + d.2, p.y + d.1⟩ 0 with
        | none => rfl
        | some markers => rfl

theorem foldlM_bfsVisitLogged_erase (p : Point) (ds : List (Int × Int))
    (s : BfsState × BfsLog) :
    (ds.foldlM (bfsVisitLogged p) s).map Prod.fst = ds.foldlM (bfsVisit p) s.1 := by
  induction ds generalizing s with
  | nil => rfl
  | cons d ds ih =>
      rw [List.foldlM_cons, List.foldlM_cons, ← bfsVisitLogged_erase]
      cases bfsVisitLogged p s d with
      | none => rfl
      | some s' => exact ih s'

/-- Without its log the search is the search of the program. -/
theorem bfsLoopLogged_erase (fuel : Nat) (s : BfsState × BfsLog) :
    (bfsLoopLogged fuel s).map Prod.fst = bfsLoop fuel s.1 := by
  induction fuel generalizing s with
  | zero => rfl
  | succ fuel ih =>
      obtain ⟨⟨markers, minP, maxP, queue⟩, log⟩ := s
      cases queue with
      | nil => rfl
      | cons p queue =>
          simp only [bfsLoopLogged, bfsLoop]
          rw [← foldlM_bfsVisitLogged_erase p offsets
            (⟨markers, minP, maxP, queue⟩, { log with iterations := log.iterations + 1 })]
          cases offsets.foldlM (bfsVisitLogged p) _ with
          | none => rfl
          | some s' => exact ih s'

/-! ## The invariant -/

/-- What the log says about the state of the search. -/
structure LogInv (markers : Mat Int) (start : Point) (st : BfsState) (log : BfsLog) : Prop where
  inside : ∀ p ∈ log.enqueued ++ log.read ++ log.written, markers.InBounds p
  /-- After the start, every cleared pixel has been put into the queue once. -/
  once : ∃ found, log.enqueued = start :: found ∧ found.Nodup ∧
    ∀ p, p ∈ found ↔ p ∈ Foreground markers ∧ p ∉ Foreground st.markers
  /-- Every iteration has taken one point out of the queue. -/
  balance : log.iterations + st.queue.length = log.enqueued.length

section

variable {markers : Mat Int} {start : Point} {st : BfsState} {log : BfsLog}

theorem LogInv.init (hs : markers.InBounds start) :
    LogInv markers start (bfsStart markers start).1 (bfsStart markers start).2 where
  inside := by
    intro p hp
    rw [List.mem_singleton.mp hp]
    exact hs
  once := by
    refine ⟨[], rfl, .nil, fun p => ?_⟩
    simp [bfsStart]
  balance := rfl

/-- A marker that is read and not above 1. -/
theorem LogInv.read (h : LogInv markers start st log) {n : Point} (hn : markers.InBounds n) :
    LogInv markers start st { log with read := log.read ++ [n] } where
  inside := by
    intro p hp
    by_cases hpn : p = n
    · exact hpn ▸ hn
    · exact h.inside p (by simpa [hpn] using hp)
  once := h.once
  balance := h.balance

/-- A pixel that is found. -/
theorem LogInv.found (h : LogInv markers start st log) (hinv : BfsInv markers start st)
    {n : Point} (hn : n ∈ Foreground st.markers) {m : Mat Int}
    (hm : st.markers.set? n 0 = some m) :
    LogInv markers start (st.found m n)
      ⟨log.enqueued ++ [n], log.read ++ [n], log.written ++ [n], log.iterations⟩ where
  inside := by
    have hb : markers.InBounds n := mem_positions.mp (foreground_subset _ (hinv.subset hn))
    intro p hp
    by_cases hpn : p = n
    · exact hpn ▸ hb
    · exact h.inside p (by simpa [hpn] using hp)
  once := by
    obtain ⟨found, heq, hnodup, hmem⟩ := h.once
    refine ⟨found ++ [n], by simp [heq], ?_, fun p => ?_⟩
    · -- a pixel of the foreground has not been found before
      rw [← List.concat_eq_append, List.nodup_concat]
      exact ⟨fun hf => ((hmem n).mp hf).2 hn, hnodup⟩
    · rw [List.mem_append, List.mem_singleton, hmem, BfsState.found, foreground_set? hm]
      by_cases hp : p = n
      · simp [hp, hinv.subset hn]
      · simp [hp]
  balance := by
    have := h.balance
    simp only [BfsState.found, List.length_append, List.length_singleton]
    omega

/-- What one round of the loops over `dy` and `dx` does and logs. -/
theorem bfsVisitLogged_cases (p : Point) (st : BfsState) (log : BfsLog) (d : Int × Int) :
    bfsVisitLogged p (st, log) d = some (st, log) ∨
    ∃ n, st.markers.InBounds n ∧
      (bfsVisitLogged p (st, log) d = some (st, { log with read := log.read ++ [n] }) ∨
      n ∈ Foreground st.markers ∧ ∃ m, st.markers.set? n 0 = some m ∧
        bfsVisitLogged p (st, log) d = some (st.found m n,
          ⟨log.enqueued ++ [n], log.read ++ [n], log.written ++ [n], log.iterations⟩)) := by
  by_cases hd : d.2 = 0 ∧ d.1 = 0
  · exact .inl (if_pos hd)
  by_cases hx : p.x + d.2 < 0 ∨ p.x + d.2 ≥ st.markers.cols
  · left
    simp only [bfsVisitLogged, if_neg hd]
    exact if_pos hx
  by_cases hy : p.y + d.1 < 0 ∨ p.y + d.1 ≥ st.markers.rows
  · left
    simp only [bfsVisitLogged, if_neg hd, if_neg hx]
    exact if_pos hy
  have hb : st.markers.InBounds ⟨p.x + d.2, p.y + d.1⟩ := inBounds_iff_checks.mpr ⟨hx, hy⟩
  obtain ⟨v, hv⟩ := Mat.exists_at? hb
  refine .inr ⟨_, hb, ?_⟩
  by_cases hle : v ≤ 1
  · left
    simp only [bfsVisitLogged, if_neg hd, if_neg hx, if_neg hy, hv]
    exact if_pos hle
  · right
    obtain ⟨m, hm⟩ := Mat.exists_set? hb 0
    refine ⟨⟨v, hv, Int.not_le.mp hle⟩, m, hm, ?_⟩
    simp only [bfsVisitLogged, if_neg hd, if_neg hx, if_neg hy, hv, hm]
    exact if_neg hle

theorem LogInv.visit (h : LogInv markers start st log) (hinv : BfsInv markers start st)
    (p : Point) (d : Int × Int) :
    ∃ st' log', bfsVisitLogged p (st, log) d = some (st', log') ∧
      BfsInv markers start st' ∧ LogInv markers start st' log' := by
  rcases bfsVisitLogged_cases p st log d with heq | ⟨n, hb, heq | ⟨hn, m, hm, heq⟩⟩
  · exact ⟨_, _, heq, hinv, h⟩
  · exact ⟨_, _, heq, hinv, h.read ((hinv.painted.inBounds_iff n).mp hb)⟩
  · exact ⟨_, _, heq, hinv.found hn hm, h.found hinv hn hm⟩

end

theorem LogInv.visits {markers : Mat Int} {start : Point} (p : Point) :
    ∀ (ds : List (Int × Int)) {st : BfsState} {log : BfsLog}, BfsInv markers start st →
      LogInv markers start st log →
      ∃ st' log', ds.foldlM (bfsVisitLogged p) (st, log) = some (st', log') ∧
        BfsInv markers start st' ∧ LogInv markers start st' log'
  | [], st, log, hinv, h => ⟨st, log, rfl, hinv, h⟩
  | d :: ds, st, log, hinv, h => by
      obtain ⟨st₁, log₁, heq₁, hinv₁, h₁⟩ := h.visit hinv p d
      obtain ⟨st₂, log₂, heq₂, hinv₂, h₂⟩ := LogInv.visits p ds hinv₁ h₁
      refine ⟨st₂, log₂, ?_, hinv₂, h₂⟩
      rw [List.foldlM_cons, heq₁]
      exact heq₂

/-! ## The whole search -/

/-- An iteration uses up one unit of what is left to do. -/
theorem size_visits {markers : Mat Int} {start p : Point} {st st' : BfsState}
    {log log' : BfsLog} (hinv : BfsInv markers start st)
    (h : offsets.foldlM (bfsVisitLogged p) (st, log) = some (st', log')) :
    st'.flood.size + 1 = Flood.State.size ⟨Foreground st.markers, p :: st.queue⟩ := by
  obtain ⟨st₁, heq, -, hflood⟩ := foldlM_bfsVisit_spec p offsets hinv
  have herase := foldlM_bfsVisitLogged_erase p offsets (st, log)
  rw [h, heq] at herase
  cases herase
  have hround : st'.flood = Flood.round neighbours (Foreground st.markers) p st.queue := hflood
  rw [hround]
  exact Flood.size_round (finite_foreground _) p st.queue

theorem bfsLoopLogged_nil {st : BfsState} {log : BfsLog} (h : st.queue = []) {fuel : Nat}
    (hfuel : 0 < fuel) : bfsLoopLogged fuel (st, log) = some (st, log) := by
  cases fuel with
  | zero => exact absurd hfuel (Nat.lt_irrefl 0)
  | succ fuel => simp only [bfsLoopLogged, h]

/-- The loop ends with an empty queue, and any fuel above what is left to do
gives the same result. -/
theorem LogInv.loop {markers : Mat Int} {start : Point} :
    ∀ (size : Nat) {st : BfsState} {log : BfsLog}, st.flood.size = size →
      BfsInv markers start st → LogInv markers start st log →
      ∃ st' log', (∀ fuel, size < fuel → bfsLoopLogged fuel (st, log) = some (st', log')) ∧
        st'.queue = [] ∧ BfsInv markers start st' ∧ LogInv markers start st' log' := by
  intro size
  induction size with
  | zero =>
      intro st log hsize hinv h
      have hqueue : st.queue = [] := by
        refine List.eq_nil_of_length_eq_zero ?_
        simp only [BfsState.flood, Flood.State.size] at hsize
        omega
      exact ⟨st, log, fun fuel hfuel => bfsLoopLogged_nil hqueue hfuel, hqueue, hinv, h⟩
  | succ size ih =>
      intro st log hsize hinv h
      obtain ⟨m, minP, maxP, queue⟩ := st
      cases queue with
      | nil =>
          exact ⟨_, _, fun fuel hfuel => bfsLoopLogged_nil rfl (Nat.zero_lt_of_lt hfuel), rfl,
            hinv, h⟩
      | cons p queue =>
          have hpop : BfsInv markers start ⟨m, minP, maxP, queue⟩ := ⟨hinv.painted, hinv.box⟩
          have hlog : LogInv markers start ⟨m, minP, maxP, queue⟩
              { log with iterations := log.iterations + 1 } := by
            refine ⟨h.inside, h.once, ?_⟩
            have := h.balance
            simp only [List.length_cons] at this ⊢
            omega
          obtain ⟨st₁, log₁, heq, hinv₁, h₁⟩ := LogInv.visits p offsets hpop hlog
          have hsize₁ := size_visits hpop heq
          obtain ⟨st₂, log₂, hloop, hqueue, hinv₂, h₂⟩ := ih
            (by simp only [BfsState.flood] at hsize hsize₁ ⊢; omega) hinv₁ h₁
          refine ⟨st₂, log₂, fun fuel hfuel => ?_, hqueue, hinv₂, h₂⟩
          cases fuel with
          | zero => exact absurd hfuel (Nat.not_lt_zero _)
          | succ fuel =>
              simp only [bfsLoopLogged, heq, Option.bind_some]
              exact hloop fuel (Nat.lt_of_succ_lt_succ hfuel)

theorem cleared_eq {markers markers' : Mat Int}
    (h : Mat.PaintedBy (fun p => p ∈ Foreground markers ∧ p ∉ Foreground markers') 0 markers
      markers') :
    Cleared markers markers' = {p | p ∈ Foreground markers ∧ p ∉ Foreground markers'} := by
  ext p
  constructor
  · rintro ⟨hne, hzero⟩
    by_contra hnot
    rw [h.outside p hnot] at hzero
    exact hne hzero
  · intro hp
    obtain ⟨v, hv, hlt⟩ := hp.1
    refine ⟨fun hzero => ?_, h.inside p hp (Mat.inBounds_of_at? hv)⟩
    rw [hv, Option.some.injEq] at hzero
    omega

/-- The search from a pixel of the matrix, whatever its marker, ends.  What it
puts into the queue, reads and writes is inside the matrix.  A pixel is put into
the queue at most once, the start at most twice.  The loop has one iteration
more than there are pixels changed to 0. -/
theorem bfs_bounded (markers : Mat Int) (start : Point) (hs : markers.InBounds start) :
    ∃ st log,
      (∀ fuel, markers.rows * markers.cols + 2 ≤ fuel →
        bfsLoopLogged fuel (bfsStart markers start) = some (st, log) ∧
          bfsLoop fuel (bfsStart markers start).1 = some st) ∧
      (∃ rect, bfs markers start = some (st.markers, rect)) ∧
      st.queue = [] ∧
      (∀ p ∈ log.enqueued ++ log.read ++ log.written, markers.InBounds p) ∧
      (∀ p, p ≠ start → log.enqueued.count p ≤ 1) ∧ log.enqueued.count start ≤ 2 ∧
      log.iterations = 1 + (Cleared markers st.markers).ncard := by
  obtain ⟨st, log, hloop, hqueue, hinv, h⟩ :=
    LogInv.loop _ rfl (BfsInv.init markers start) (LogInv.init hs)
  have hfuel : Flood.State.size ⟨Foreground markers, [start]⟩ <
      markers.rows * markers.cols + 2 := by
    have := ncard_foreground_le markers
    simp only [Flood.State.size, List.length_singleton]
    omega
  have hlogged : ∀ fuel, markers.rows * markers.cols + 2 ≤ fuel →
      bfsLoopLogged fuel (bfsStart markers start) = some (st, log) :=
    fun fuel hle => hloop fuel (Nat.lt_of_lt_of_le hfuel hle)
  have herase : ∀ fuel, markers.rows * markers.cols + 2 ≤ fuel →
      bfsLoop fuel (bfsStart markers start).1 = some st := by
    intro fuel hle
    rw [← bfsLoopLogged_erase, hlogged fuel hle]
    rfl
  obtain ⟨found, heq, hnodup, hmem⟩ := h.once
  refine ⟨st, log, fun fuel hle => ⟨hlogged fuel hle, herase fuel hle⟩, ?_, hqueue, h.inside,
    ?_, ?_, ?_⟩
  · have hst := herase _ (Nat.le_refl _)
    rw [bfsStart] at hst
    simp only [bfs, hst, Option.bind_eq_bind, Option.bind_some]
    split
    · exact ⟨_, rfl⟩
    · exact ⟨_, rfl⟩
  · intro p hp
    rw [heq, List.count_cons_of_ne hp.symm]
    exact List.nodup_iff_count_le_one.mp hnodup p
  · rw [heq, List.count_cons_self]
    exact Nat.succ_le_succ (List.nodup_iff_count_le_one.mp hnodup start)
  · have hbalance := h.balance
    have hcard : (Cleared markers st.markers).ncard = found.length := by
      have hset : Cleared markers st.markers = (found.toFinset : Set Point) := by
        rw [cleared_eq hinv.painted]
        ext p
        simp [hmem p]
      rw [hset, Set.ncard_coe_finset, List.toFinset_card_of_nodup hnodup]
    rw [hqueue, heq] at hbalance
    simp only [List.length_cons, List.length_nil] at hbalance
    omega

/-- Two pixels of one part, side by side. -/
def twoPixels : Mat Int := ⟨1, 2, fun _ _ => 2⟩

/-- The start is found again from its neighbour. -/
theorem bfs_bounded_twoPixels :
    twoPixels.InBounds ⟨0, 0⟩ ∧
      ∃ st log, bfsLoopLogged 4 (bfsStart twoPixels ⟨0, 0⟩) = some (st, log) ∧
        log.enqueued = [⟨0, 0⟩, ⟨1, 0⟩, ⟨0, 0⟩] ∧ log.iterations = 3 ∧
        (Cleared twoPixels st.markers).ncard = 2 := by
  have hs : twoPixels.InBounds ⟨0, 0⟩ := by decide
  obtain ⟨st, log, hloop, -, -, -, -, -, hcard⟩ := bfs_bounded twoPixels ⟨0, 0⟩ hs
  have hrun := (hloop 4 (Nat.le_refl 4)).1
  have hlog : (bfsLoopLogged 4 (bfsStart twoPixels ⟨0, 0⟩)).map
      (fun s => (s.2.enqueued, s.2.iterations)) = some ([⟨0, 0⟩, ⟨1, 0⟩, ⟨0, 0⟩], 3) := by
    decide
  rw [hrun, Option.map_some, Option.some.injEq, Prod.mk.injEq] at hlog
  obtain ⟨henqueued, hiterations⟩ := hlog
  exact ⟨hs, st, log, hrun, henqueued, hiterations, by simp only at hiterations; omega⟩

end Gazosan
