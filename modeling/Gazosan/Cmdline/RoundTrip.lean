import Gazosan.Cmdline.Insertion

/-!
# Command lines for configurations

Which configurations `parse_args` can produce, and a command line for each of them.
`commandLine` writes a configuration as arguments, with every option that has a value.
The parser reads such arguments back (`commandLine_roundTrip`), so a configuration that
comes from one command line can be passed on in another one.

A number is written in decimal, and `std::stoi` reads it back (`stoi_toString`).
-/

namespace Gazosan

/-! ## Numbers -/

theorem digitsValue_eq (digits : List Char) :
    digitsValue digits = Nat.ofDigitChars 10 digits 0 := by
  induction digits using List.reverseRecOn with
  | nil => rfl
  | append_singleton digits c ih =>
      rw [Nat.ofDigitChars_append, ← ih, Nat.ofDigitChars_cons, Nat.ofDigitChars_nil, digitsValue,
        List.reverse_append, List.reverse_singleton, List.singleton_append, List.map_cons,
        Nat.ofDigits_cons, ← digitsValue, Nat.add_comm]

/-- The digits of a number, behind a sign or none, are an integer prefix. -/
theorem intPrefix_digits (n : Nat) {sign : List Char} {factor : Int}
    (hsign : (sign, factor) ∈ signs) : IntPrefix (sign ++ Nat.toDigits 10 n) (factor * n) := by
  refine ⟨[], sign, factor, Nat.toDigits 10 n, [], ?_, nofun, hsign, Nat.toDigits_ne_nil,
    fun c hc => Nat.isDigit_of_mem_toDigits (by decide) (by decide) hc, nofun, ?_⟩
  · simp
  · rw [digitsValue_eq, Nat.ofDigitChars_ten_toDigits]

/-- `std::stoi` reads back what is written in decimal. -/
theorem stoi_toString {n : Int} (h : FitsInt n) : stoi (toString n) = .ok n := by
  refine (stoi_ok_iff _ n).mpr ⟨?_, h⟩
  rw [Int.toString_eq_repr, Int.repr_eq_if]
  split
  · rename_i hpos
    have hdigits : IntPrefix ([] ++ Nat.toDigits 10 n.toNat) (1 * n.toNat) :=
      intPrefix_digits n.toNat (by decide)
    rwa [List.nil_append, Int.one_mul, Int.toNat_of_nonneg hpos, ← Nat.toList_repr] at hdigits
  · have hdigits : IntPrefix (['-'] ++ Nat.toDigits 10 (-n).toNat) (-1 * (-n).toNat) :=
      intPrefix_digits (-n).toNat (by decide)
    rw [Int.toNat_of_nonneg (by omega), ← Nat.toList_repr, Int.neg_mul, Int.one_mul,
      Int.neg_neg] at hdigits
    rwa [String.toList_append]

/-! ## Command lines -/

/-- A text if a bool is set. -/
def optional (b : Bool) (texts : List String) : List String := if b then texts else []

/-- The arguments that ask for a configuration.  Nothing reads the value of
`-color-diagnostics`. -/
def commandLine (arg : Arg) : List String :=
  ["-new", arg.newFile, "-old", arg.oldFile, "-o", arg.outputName,
    "-threshold", toString arg.binThreshold, "-thread_count", toString arg.threadCount] ++
  (optional arg.createChangeImage ["-create_change_image"] ++
  (optional arg.crossCheck ["-cross_check"] ++
  (optional arg.perf ["-perf"] ++ optional arg.colorDiagnostics ["-color-diagnostics", "always"])))

/-- The configurations that the parser can produce.  A thread count of 0 is the default
where the library allows no parallelism. -/
structure Producible (maxAllowedParallelism : Nat) (arg : Arg) : Prop where
  newFile : arg.newFile ≠ ""
  oldFile : arg.oldFile ≠ ""
  outputName : arg.outputName ≠ ""
  binThreshold : FitsInt arg.binThreshold ∧ arg.binThreshold ≠ 0
  threadCount : FitsInt arg.threadCount ∧ (arg.threadCount = 0 → maxAllowedParallelism = 0)

section

variable {m : Nat} {arg : Arg}

/-- A number that was read fits. -/
theorem NumberOf.fits {dflt n : Int} {value : Option String} (hdflt : FitsInt dflt)
    (h : NumberOf dflt value n) : FitsInt n := by
  cases value with
  | none => exact h ▸ hdflt
  | some text => exact h.2

/-- What the parser produces. -/
theorem producible_of_parseArgs {args : List String} (h : parseArgs m args = .ok arg) :
    Producible m arg := by
  obtain ⟨groups, ending, cut⟩ := Cut.exists args.tail
  obtain ⟨-, hnew, hold, rfl⟩ := (parseArgs_ok_iff cut m arg).mp h
  have hmeaning := meaning_foldl groups cut.accepts
  have hthreshold := hmeaning.binThreshold.fits (by decide)
  have hthreads := hmeaning.threadCount.fits (by decide)
  generalize groups.foldl Group.apply {} = raw at *
  refine ⟨hnew, hold, ?_, ?_, ?_⟩
  · simp only [Arg.withDefaults]
    split
    · decide
    · assumption
  · simp only [Arg.withDefaults]
    split
    · decide
    · exact ⟨hthreshold, ‹_›⟩
  · simp only [Arg.withDefaults]
    split
    · rw [FitsInt]
      omega
    · exact ⟨hthreads, fun hzero => absurd hzero ‹_›⟩

/-- The groups of such a command line. -/
def commandGroups (arg : Arg) : List Group :=
  [.valued .new arg.newFile, .valued .old arg.oldFile, .valued .output arg.outputName,
    .valued .threshold (toString arg.binThreshold),
    .valued .threadCount (toString arg.threadCount)] ++
  ((if arg.createChangeImage then [.flag .createChangeImage] else []) ++
  ((if arg.crossCheck then [.flag .crossCheck] else []) ++
  ((if arg.perf then [.flag .perf] else []) ++
    if arg.colorDiagnostics then [.valued .colorDiagnostics "always"] else [])))

theorem cut_optional {b : Bool} {texts : List String} {group : Group}
    (h : Cut texts [group] .done) :
    Cut (optional b texts) (if b then [group] else []) .done := by
  cases b with
  | true => exact h
  | false => exact .done

theorem commandLine_cut (h : Producible m arg) :
    Cut (commandLine arg) (commandGroups arg) .done := by
  have hthreshold : Opt.threshold.Accepts (toString arg.binThreshold) :=
    fun _ => ⟨_, readsInt_iff.mpr (stoi_toString h.binThreshold.1)⟩
  have hthreads : Opt.threadCount.Accepts (toString arg.threadCount) :=
    fun _ => ⟨_, readsInt_iff.mpr (stoi_toString h.threadCount.1)⟩
  have hvalued : Cut ["-new", arg.newFile, "-old", arg.oldFile, "-o", arg.outputName,
      "-threshold", toString arg.binThreshold, "-thread_count", toString arg.threadCount]
      [.valued .new arg.newFile, .valued .old arg.oldFile, .valued .output arg.outputName,
        .valued .threshold (toString arg.binThreshold),
        .valued .threadCount (toString arg.threadCount)] .done :=
    .valued (by decide) nofun (.valued (by decide) nofun (.valued (by decide) nofun
      (.valued (by decide) hthreshold (.valued (by decide) hthreads .done))))
  refine hvalued.append rfl ((cut_optional (.flag (by decide) .done)).append rfl ?_)
  refine (cut_optional (.flag (by decide) .done)).append rfl ?_
  exact (cut_optional (.flag (by decide) .done)).append rfl
    (cut_optional (.valued (by decide) nofun .done))

theorem apply_threshold {n : Int} (h : FitsInt n) (raw : Arg) :
    Group.apply raw (.valued .threshold (toString n)) = { raw with binThreshold := n } := by
  simp only [Group.apply, Opt.store, stoi_toString h]
  rfl

theorem apply_threadCount {n : Int} (h : FitsInt n) (raw : Arg) :
    Group.apply raw (.valued .threadCount (toString n)) = { raw with threadCount := n } := by
  simp only [Group.apply, Opt.store, stoi_toString h]
  rfl

/-- They store the configuration. -/
theorem foldl_commandGroups (h : Producible m arg) :
    (commandGroups arg).foldl Group.apply {} = arg := by
  simp only [commandGroups, List.foldl_append, List.foldl_cons, List.foldl_nil,
    apply_threshold h.binThreshold.1, apply_threadCount h.threadCount.1]
  obtain ⟨color, new, old, output, change, threshold, cross, threads, perf⟩ := arg
  cases color <;> cases change <;> cases cross <;> cases perf <;> rfl

/-- And the defaults change nothing. -/
theorem Producible.withDefaults (h : Producible m arg) : arg.withDefaults m = arg := by
  have hthreads : (if arg.threadCount = 0 then ((min m 16 : Nat) : Int) else arg.threadCount) =
      arg.threadCount := by
    split
    · rename_i hzero
      rw [h.threadCount.2 hzero, hzero]
      rfl
    · rfl
  rw [Arg.withDefaults, if_neg h.binThreshold.2, if_neg h.outputName, hthreads]

theorem parseArgs_commandLine (h : Producible m arg) (name : String) :
    parseArgs m (name :: commandLine arg) = .ok arg := by
  have cut : Cut (name :: commandLine arg).tail (commandGroups arg) .done := commandLine_cut h
  rw [parseArgs_ok_iff cut, foldl_commandGroups h]
  exact ⟨rfl, h.newFile, h.oldFile, h.withDefaults.symm⟩

end

/-- The parser produces a configuration from some arguments if and only if no field of it
is left to a default, and then it produces it from `commandLine` as well. -/
theorem commandLine_roundTrip (m : Nat) (arg : Arg) :
    ((∃ args, parseArgs m args = .ok arg) ↔ Producible m arg) ∧
      ((∃ args, parseArgs m args = .ok arg) ↔
        ∀ name, parseArgs m (name :: commandLine arg) = .ok arg) := by
  refine ⟨⟨?_, ?_⟩, ?_, ?_⟩
  · rintro ⟨args, h⟩
    exact producible_of_parseArgs h
  · intro h
    exact ⟨_, parseArgs_commandLine h ""⟩
  · rintro ⟨args, h⟩
    exact parseArgs_commandLine (producible_of_parseArgs h)
  · intro h
    exact ⟨_, h ""⟩

end Gazosan
