import Gazosan.Cmdline.Stoi

/-!
# The argument parser

`parse_args` walks over the arguments with a cursor.  Its two closures move the
cursor by one for a flag and by two for an option with a value, and they run
inside the conditions of one long chain of alternatives, so that their order is
the order of the chain.

The parser reads and writes `ctx.arg` only, and `main` calls it on the defaults.
The number of threads that TBB allows is an argument; without `ENABLE_PARALLEL`
it is 16.
-/

namespace Gazosan

/-- `help_msg`. -/
def helpMsg : String :=
  "\nOptions:\n" ++
  "  -new <FILE>                 new image file path\n" ++
  "  -old <FILE>                 old image file path\n" ++
  "  -o, --output <NAME>         output prefix name (default: image_difference)\n" ++
  "  -create_change_image        create changed image\n" ++
  "  -threshold <NUMBER>         binary threshold\n" ++
  "  -cross_check                cross check descriptor matching\n" ++
  "  -thread_count <NUMBER>      Use given number of threads\n" ++
  "  -perf                       Print performance statistics\n\n\n" ++
  "  -h, --help                  report usage information\n"

/-- `get_default_thread_count`. -/
def getDefaultThreadCount (maxAllowedParallelism : Nat) : Nat := min maxAllowedParallelism 16

section

variable (args : List String)

/-- `args[i]`, which the loop reads inside the bounds only. -/
def argAt (i : Nat) : String := args.getD i ""

/-- `read_arg`: the value and the cursor behind it, if the cursor is at `name`. -/
def readArg (i : Nat) (arg : Arg) (name : String) : Except Stop (Option (String × Nat)) :=
  if argAt args i = name then
    match args[i + 1]? with
    | none => .error (.fatal (fatalLine arg ("option -" ++ name ++ ": argument missing")))
    | some value => .ok (some (value, i + 2))
  else .ok none

/-- `read_arg(name) || read_arg(other)`. -/
def readArgOr (i : Nat) (arg : Arg) (name other : String) :
    Except Stop (Option (String × Nat)) := do
  match ← readArg args i arg name with
  | some read => return some read
  | none => readArg args i arg other

/-- `read_flag`: the cursor behind the flag, if the cursor is at `name`. -/
def readFlag (i : Nat) (name : String) : Option Nat :=
  if argAt args i = name then some (i + 1) else none

/-- A value that `std::stoi` reads. -/
def readNumber (value : String) : Except Stop Int := (stoi value).mapError .exception

/-- What is printed for `-h`. -/
def usage : String := "Usage: " ++ argAt args 0 ++ " [options]\n" ++ helpMsg

/-- The body of the loop: the next cursor and the configuration so far. -/
def parseStep (i : Nat) (arg : Arg) : Except Stop (Nat × Arg) := do
  if (readFlag args i "-h" <|> readFlag args i "--help").isSome then
    throw (.exit (usage args))
  else if let some (_, i) ← readArgOr args i arg "-color-diagnostics" "--color-diagnostics" then
    return (i, { arg with colorDiagnostics := true })
  if let some (value, i) ← readArg args i arg "-new" then
    return (i, { arg with newFile := value })
  if let some (value, i) ← readArg args i arg "-old" then
    return (i, { arg with oldFile := value })
  if let some (value, i) ← readArg args i arg "-threshold" then
    return (i, { arg with binThreshold := ← readNumber value })
  if let some (value, i) ← readArgOr args i arg "-o" "--output" then
    return (i, { arg with outputName := value })
  if let some i := readFlag args i "-create_change_image" then
    return (i, { arg with createChangeImage := true })
  if let some i := readFlag args i "-cross_check" then
    return (i, { arg with crossCheck := true })
  if let some (value, i) ← readArg args i arg "-thread_count" then
    return (i, { arg with threadCount := ← readNumber value })
  if let some i := readFlag args i "-perf" then
    return (i, { arg with perf := true })
  if (argAt args i).toList.head? = some '-' then
    throw (.fatal (fatalLine arg ("unknown command line option: " ++ argAt args i)))
  else return (i + 1, arg)

end

/-! ## What the chain does with one argument -/

/-- The options with a value. -/
inductive Opt where
  | colorDiagnostics | new | old | threshold | output | threadCount
deriving DecidableEq, Repr

/-- The flags. -/
inductive Switch where
  | createChangeImage | crossCheck | perf
deriving DecidableEq, Repr

/-- What an argument is, by its text. -/
inductive Kind where
  | help
  | valued (opt : Opt)
  | flag (switch : Switch)
  | positional
  | unknown
deriving DecidableEq, Repr

/-- The texts with a meaning of their own. -/
def spellings : List (String × Kind) :=
  [("-h", .help), ("--help", .help),
    ("-color-diagnostics", .valued .colorDiagnostics),
    ("--color-diagnostics", .valued .colorDiagnostics),
    ("-new", .valued .new), ("-old", .valued .old), ("-threshold", .valued .threshold),
    ("-o", .valued .output), ("--output", .valued .output),
    ("-create_change_image", .flag .createChangeImage), ("-cross_check", .flag .crossCheck),
    ("-thread_count", .valued .threadCount), ("-perf", .flag .perf)]

/-- Any other text is positional, unless it starts with `-`. -/
def kind (text : String) : Kind :=
  (spellings.lookup text).getD (if text.toList.head? = some '-' then .unknown else .positional)

/-- The configuration with the value of an option stored. -/
def Opt.store (value : String) (arg : Arg) : Opt → Except Exception Arg
  | .colorDiagnostics => .ok { arg with colorDiagnostics := true }
  | .new => .ok { arg with newFile := value }
  | .old => .ok { arg with oldFile := value }
  | .threshold => (stoi value).map fun n => { arg with binThreshold := n }
  | .output => .ok { arg with outputName := value }
  | .threadCount => (stoi value).map fun n => { arg with threadCount := n }

/-- The configuration with a flag set. -/
def Switch.set (arg : Arg) : Switch → Arg
  | .createChangeImage => { arg with createChangeImage := true }
  | .crossCheck => { arg with crossCheck := true }
  | .perf => { arg with perf := true }

theorem kind_spelling : ∀ p ∈ spellings, kind p.1 = p.2 := by decide

theorem kind_cases (text : String) :
    (∃ k, (text, k) ∈ spellings ∧ kind text = k) ∨
      (∀ p ∈ spellings, text ≠ p.1) ∧
        kind text = if text.toList.head? = some '-' then .unknown else .positional := by
  by_cases h : ∃ k, (text, k) ∈ spellings
  · obtain ⟨k, hk⟩ := h
    exact .inl ⟨k, hk, kind_spelling _ hk⟩
  · have hne : ∀ p ∈ spellings, text ≠ p.1 := by
      rintro ⟨a, k⟩ hp rfl
      exact h ⟨k, hp⟩
    refine .inr ⟨hne, ?_⟩
    rw [kind, List.lookup_eq_none_iff.mpr (fun p hp => by simpa using hne p hp), Option.getD_none]

/-- The body of the loop by the kind of the argument at the cursor. -/
theorem parseStep_eq (args : List String) (i : Nat) (arg : Arg) :
    parseStep args i arg =
      match kind (argAt args i) with
      | .help => .error (.exit (usage args))
      | .valued opt =>
          match args[i + 1]? with
          | none => .error (.fatal (fatalLine arg
              ("option -" ++ argAt args i ++ ": argument missing")))
          | some value => ((opt.store value arg).mapError .exception).map fun arg => (i + 2, arg)
      | .flag switch => .ok (i + 1, switch.set arg)
      | .positional => .ok (i + 1, arg)
      | .unknown => .error (.fatal (fatalLine arg
          ("unknown command line option: " ++ argAt args i))) := by
  rcases kind_cases (argAt args i) with ⟨k, hmem, hk⟩ | ⟨hne, hk⟩
  · rw [hk]
    simp only [spellings, List.mem_cons, Prod.mk.injEq, List.not_mem_nil, or_false] at hmem
    rcases hmem with ⟨ha, rfl⟩ | ⟨ha, rfl⟩ | ⟨ha, rfl⟩ | ⟨ha, rfl⟩ | ⟨ha, rfl⟩ | ⟨ha, rfl⟩ |
      ⟨ha, rfl⟩ | ⟨ha, rfl⟩ | ⟨ha, rfl⟩ | ⟨ha, rfl⟩ | ⟨ha, rfl⟩ | ⟨ha, rfl⟩ | ⟨ha, rfl⟩
    -- the text is fixed now: run the chain with and without a value behind it
    all_goals
      cases hv : args[i + 1]? with
      | none =>
          simp [parseStep, readArg, readArgOr, readFlag, ha, hv, Switch.set, bind, Except.bind,
            pure, Except.pure, throw, throwThe, MonadExceptOf.throw]
      | some value =>
          cases hn : stoi value <;>
            simp [parseStep, readArg, readArgOr, readFlag, readNumber, ha, hv, hn, Opt.store,
              Switch.set, bind, Except.bind, pure, Except.pure, throw, throwThe,
              MonadExceptOf.throw, Except.map, Except.mapError]
  · simp only [spellings, List.forall_mem_cons, List.not_mem_nil] at hne
    by_cases hd : (argAt args i).toList.head? = some '-'
    · rw [hk, if_pos hd]
      simp [parseStep, readArg, readArgOr, readFlag, hne, hd, bind, Except.bind, throw, throwThe,
        MonadExceptOf.throw]
    · rw [hk, if_neg hd]
      simp [parseStep, readArg, readArgOr, readFlag, hne, hd, bind, Except.bind, pure, Except.pure]

/-! ## The loop -/

/-- Every round moves the cursor. -/
theorem parseStep_lt {args : List String} {i next : Nat} {arg arg' : Arg}
    (h : parseStep args i arg = .ok (next, arg')) : i < next := by
  rw [parseStep_eq] at h
  split at h
  · cases h
  · split at h
    · cases h
    · rename_i opt _ _ value _
      cases hs : opt.store value arg with
      | error e => simp [hs, Except.mapError, Except.map] at h
      | ok stored =>
          simp only [hs, Except.mapError, Except.map, Except.ok.injEq, Prod.mk.injEq] at h
          omega
  · cases h
    exact Nat.lt_succ_self i
  · cases h
    exact Nat.lt_succ_self i
  · cases h

/-- The loop, from a cursor to the end of the arguments. -/
def parseLoop (args : List String) (i : Nat) (arg : Arg) : Except Stop Arg :=
  if i < args.length then
    match _h : parseStep args i arg with
    | .error stop => .error stop
    | .ok (next, arg) => parseLoop args next arg
  else .ok arg
termination_by args.length - i
decreasing_by
  have := parseStep_lt _h
  omega

/-- The checks and defaults behind the loop. -/
def finishArgs (maxAllowedParallelism : Nat) (arg : Arg) : Except Stop Arg :=
  if arg.newFile.isEmpty then .error (.fatal (fatalLine arg "\"-new\" option is required"))
  else if arg.oldFile.isEmpty then .error (.fatal (fatalLine arg "\"-old\" option is required"))
  else
    let arg := if arg.threadCount = 0 then
      { arg with threadCount := getDefaultThreadCount maxAllowedParallelism } else arg
    let arg := if arg.binThreshold = 0 then { arg with binThreshold := 200 } else arg
    let arg := if arg.outputName.isEmpty then { arg with outputName := "image_difference" } else arg
    .ok arg

/-- `parse_args`. -/
def parseArgs (maxAllowedParallelism : Nat) (args : List String) : Except Stop Arg :=
  (parseLoop args 1 {}).bind (finishArgs maxAllowedParallelism)

end Gazosan
