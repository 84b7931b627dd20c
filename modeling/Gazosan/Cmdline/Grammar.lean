import Gazosan.Cmdline.ParseArgs
import Mathlib.Data.List.Induction

/-!
# The grammar of the command line

The arguments behind the program name are cut from the left into groups: an
option with the next argument as its value, whatever that looks like, a flag,
or a positional argument.  The cut ends at the end of the arguments, at a
request for help, or at a group that fails, and what stands behind it plays no
part.  `Cut` is this grammar, and `Meaning` says what the groups of a cut mean:
the last group of an option wins.

`parseLoop_of_cut` runs the cursor loop along a cut, and `parseArgs_grammar`
reads off the four kinds of outcome.
-/

namespace Gazosan

/-! ## Groups and cuts -/

/-- A group of arguments that the parser reads in one round. -/
inductive Group where
  | valued (opt : Opt) (value : String)
  | flag (switch : Switch)
  | positional (text : String)
deriving DecidableEq, Repr

/-- Where a cut ends. -/
inductive Ending where
  | done
  | help
  | badValue (e : Exception)
  | missing (text : String)
  | unknown (text : String)
deriving DecidableEq, Repr

/-- The options whose value is a number. -/
def Opt.numeric : Opt → Bool
  | .threshold => true
  | .threadCount => true
  | _ => false

/-- A text begins with an integer that fits in 32 bits. -/
def ReadsInt (text : String) (n : Int) : Prop := IntPrefix text.toList n ∧ FitsInt n

/-- An option takes a value. -/
def Opt.Accepts (value : String) (opt : Opt) : Prop :=
  opt.numeric = true → ∃ n, ReadsInt value n

/-- A value of a numeric option has no integer prefix, or one that does not fit. -/
def Opt.Rejects (value : String) (e : Exception) (opt : Opt) : Prop :=
  opt.numeric = true ∧
    (e = .invalidArgument ∧ (¬ ∃ n, IntPrefix value.toList n) ∨
      e = .outOfRange ∧ ∃ n, IntPrefix value.toList n ∧ ¬ FitsInt n)

/-- The arguments are cut into groups, up to an ending. -/
inductive Cut : List String → List Group → Ending → Prop
  | done : Cut [] [] .done
  | help {text rest} (hk : kind text = .help) : Cut (text :: rest) [] .help
  | unknown {text rest} (hk : kind text = .unknown) : Cut (text :: rest) [] (.unknown text)
  | missing {text opt} (hk : kind text = .valued opt) : Cut [text] [] (.missing text)
  | badValue {text value rest opt e} (hk : kind text = .valued opt) (hv : opt.Rejects value e) :
      Cut (text :: value :: rest) [] (.badValue e)
  | valued {text value rest opt groups ending} (hk : kind text = .valued opt)
      (hv : opt.Accepts value) (cut : Cut rest groups ending) :
      Cut (text :: value :: rest) (.valued opt value :: groups) ending
  | flag {text rest switch groups ending} (hk : kind text = .flag switch)
      (cut : Cut rest groups ending) : Cut (text :: rest) (.flag switch :: groups) ending
  | positional {text rest groups ending} (hk : kind text = .positional)
      (cut : Cut rest groups ending) : Cut (text :: rest) (.positional text :: groups) ending

theorem readsInt_iff {text : String} {n : Int} : ReadsInt text n ↔ stoi text = .ok n :=
  (stoi_ok_iff text n).symm

theorem ReadsInt.unique {text : String} {m n : Int} (hm : ReadsInt text m) (hn : ReadsInt text n) :
    m = n :=
  hm.1.unique hn.1 hm.2

theorem Opt.rejects_iff {opt : Opt} {value : String} {e : Exception} :
    opt.Rejects value e ↔ opt.numeric = true ∧ stoi value = .error e := by
  rw [Opt.Rejects, ← stoi_invalidArgument_iff, ← stoi_outOfRange_iff]
  constructor
  · rintro ⟨hn, ⟨rfl, h⟩ | ⟨rfl, h⟩⟩
    · exact ⟨hn, h⟩
    · exact ⟨hn, h⟩
  · rintro ⟨hn, h⟩
    cases e with
    | invalidArgument => exact ⟨hn, .inl ⟨rfl, h⟩⟩
    | outOfRange => exact ⟨hn, .inr ⟨rfl, h⟩⟩
    | opencv =>
        simp only [stoi] at h
        split at h
        · cases h
        · split at h
          · cases h
          · cases h

theorem Opt.accepts_or_rejects (opt : Opt) (value : String) :
    opt.Accepts value ∨ ∃ e, opt.Rejects value e := by
  cases hs : stoi value with
  | ok n => exact .inl fun _ => ⟨n, readsInt_iff.mpr hs⟩
  | error e =>
      cases hn : opt.numeric with
      | true => exact .inr ⟨e, Opt.rejects_iff.mpr ⟨hn, hs⟩⟩
      | false => exact .inl fun h => by rw [hn] at h; cases h

theorem Opt.not_accepts_of_rejects {opt : Opt} {value : String} {e : Exception}
    (h : opt.Rejects value e) : ¬ opt.Accepts value := by
  intro ha
  obtain ⟨hn, hs⟩ := Opt.rejects_iff.mp h
  obtain ⟨n, hr⟩ := ha hn
  rw [readsInt_iff.mp hr] at hs
  cases hs

theorem Opt.Rejects.unique {opt : Opt} {value : String} {e e' : Exception}
    (h : opt.Rejects value e) (h' : opt.Rejects value e') : e = e' := by
  have hs := (Opt.rejects_iff.mp h).2
  rw [(Opt.rejects_iff.mp h').2] at hs
  cases hs
  rfl

/-- Every list of arguments has a cut. -/
theorem Cut.exists : ∀ args : List String, ∃ groups ending, Cut args groups ending
  | [] => ⟨[], .done, .done⟩
  | text :: rest => by
      cases hk : kind text with
      | help => exact ⟨_, _, .help hk⟩
      | unknown => exact ⟨_, _, .unknown hk⟩
      | flag switch =>
          obtain ⟨groups, ending, cut⟩ := Cut.exists rest
          exact ⟨_, _, .flag hk cut⟩
      | positional =>
          obtain ⟨groups, ending, cut⟩ := Cut.exists rest
          exact ⟨_, _, .positional hk cut⟩
      | valued opt =>
          match rest with
          | [] => exact ⟨_, _, .missing hk⟩
          | value :: rest =>
              obtain hv | ⟨e, hv⟩ := opt.accepts_or_rejects value
              · obtain ⟨groups, ending, cut⟩ := Cut.exists rest
                exact ⟨_, _, .valued hk hv cut⟩
              · exact ⟨_, _, .badValue hk hv⟩

/-- And only one. -/
theorem Cut.unique {args : List String} {groups groups' : List Group} {ending ending' : Ending}
    (h : Cut args groups ending) (h' : Cut args groups' ending') :
    groups' = groups ∧ ending' = ending := by
  induction h generalizing groups' ending' with
  | done =>
      cases h'
      exact ⟨rfl, rfl⟩
  | help hk =>
      cases h' with
      | help hk' => exact ⟨rfl, rfl⟩
      | unknown hk' | missing hk' | badValue hk' | valued hk' | flag hk' | positional hk' =>
          cases hk.symm.trans hk'
  | unknown hk =>
      cases h' with
      | unknown hk' => exact ⟨rfl, rfl⟩
      | help hk' | missing hk' | badValue hk' | valued hk' | flag hk' | positional hk' =>
          cases hk.symm.trans hk'
  | missing hk =>
      cases h' with
      | missing hk' => exact ⟨rfl, rfl⟩
      | help hk' | unknown hk' | flag hk' | positional hk' => cases hk.symm.trans hk'
  | badValue hk hv =>
      cases h' with
      | badValue hk' hv' =>
          cases hk.symm.trans hk'
          rw [hv.unique hv']
          exact ⟨rfl, rfl⟩
      | valued hk' hv' cut' =>
          cases hk.symm.trans hk'
          exact absurd hv' (Opt.not_accepts_of_rejects hv)
      | help hk' | unknown hk' | flag hk' | positional hk' => cases hk.symm.trans hk'
  | valued hk hv cut ih =>
      cases h' with
      | valued hk' hv' cut' =>
          cases hk.symm.trans hk'
          obtain ⟨rfl, rfl⟩ := ih cut'
          exact ⟨rfl, rfl⟩
      | badValue hk' hv' =>
          cases hk.symm.trans hk'
          exact absurd hv (Opt.not_accepts_of_rejects hv')
      | help hk' | unknown hk' | flag hk' | positional hk' => cases hk.symm.trans hk'
  | flag hk cut ih =>
      cases h' with
      | flag hk' cut' =>
          cases hk.symm.trans hk'
          obtain ⟨rfl, rfl⟩ := ih cut'
          exact ⟨rfl, rfl⟩
      | help hk' | unknown hk' | missing hk' | badValue hk' | valued hk' | positional hk' =>
          cases hk.symm.trans hk'
  | positional hk cut ih =>
      cases h' with
      | positional hk' cut' =>
          obtain ⟨rfl, rfl⟩ := ih cut'
          exact ⟨rfl, rfl⟩
      | help hk' | unknown hk' | missing hk' | badValue hk' | valued hk' | flag hk' =>
          cases hk.symm.trans hk'

/-! ## The loop along a cut -/

/-- The configuration after a group. -/
def Group.apply (arg : Arg) : Group → Arg
  | .valued opt value => (opt.store value arg).toOption.getD arg
  | .flag switch => switch.set arg
  | .positional _ => arg

/-- What the loop ends with, at an ending and with the configuration so far. -/
def Ending.result (args : List String) (arg : Arg) : Ending → Except Stop Arg
  | .done => .ok arg
  | .help => .error (.exit (usage args))
  | .badValue e => .error (.exception e)
  | .missing text =>
      .error (.fatal (fatalLine arg ("option -" ++ text ++ ": argument missing")))
  | .unknown text => .error (.fatal (fatalLine arg ("unknown command line option: " ++ text)))

theorem Opt.store_of_accepts {opt : Opt} {value : String} (h : opt.Accepts value) (arg : Arg) :
    opt.store value arg = .ok (Group.apply arg (.valued opt value)) := by
  cases opt with
  | threshold | threadCount =>
      obtain ⟨n, hn⟩ := h rfl
      simp only [Group.apply, Opt.store, readsInt_iff.mp hn, Except.map]
      rfl
  | colorDiagnostics | new | old | output => rfl

theorem Opt.store_of_rejects {opt : Opt} {value : String} {e : Exception}
    (h : opt.Rejects value e) (arg : Arg) : opt.store value arg = .error e := by
  obtain ⟨hn, hs⟩ := Opt.rejects_iff.mp h
  cases opt with
  | threshold | threadCount => simp only [Opt.store, hs, Except.map]
  | colorDiagnostics | new | old | output => cases hn

/-- One round of the loop on a cursor that has not reached the end. -/
theorem parseLoop_step {args : List String} {i : Nat} {text : String} {rest : List String}
    (hd : args.drop i = text :: rest) (arg : Arg) :
    parseLoop args i arg =
      (parseStep args i arg).bind fun (next, arg) => parseLoop args next arg := by
  have hi : i < args.length := by
    rw [← List.drop_eq_nil_iff.not.trans not_le, hd]
    nofun
  rw [parseLoop, if_pos hi]
  cases parseStep args i arg with
  | error stop => rfl
  | ok p => rfl

theorem argAt_of_drop {args : List String} {i : Nat} {text : String} {rest : List String}
    (hd : args.drop i = text :: rest) : argAt args i = text := by
  have : args[i]? = some text := by rw [← List.head?_drop, hd, List.head?_cons]
  rw [argAt, List.getD_eq_getElem?_getD, this, Option.getD_some]

theorem drop_succ_of_drop {args : List String} {i : Nat} {text : String} {rest : List String}
    (hd : args.drop i = text :: rest) : args.drop (i + 1) = rest := by
  rw [← List.tail_drop, hd, List.tail_cons]

/-- The cursor loop reads the groups of the cut and stops at its ending. -/
theorem parseLoop_of_cut {args rest : List String} {groups : List Group} {ending : Ending}
    (cut : Cut rest groups ending) {i : Nat} (arg : Arg) (hd : args.drop i = rest) :
    parseLoop args i arg = ending.result args (groups.foldl Group.apply arg) := by
  induction cut generalizing i arg with
  | done =>
      have hi : ¬ i < args.length := by simpa using hd
      rw [parseLoop, if_neg hi]
      rfl
  | help hk =>
      rw [parseLoop_step hd, parseStep_eq, argAt_of_drop hd, hk]
      rfl
  | unknown hk =>
      rw [parseLoop_step hd, parseStep_eq, argAt_of_drop hd, hk]
      rfl
  | missing hk =>
      have hnext : args[i + 1]? = none := by
        rw [← List.head?_drop, drop_succ_of_drop hd, List.head?_nil]
      simp only [parseLoop_step hd, parseStep_eq, argAt_of_drop hd, hk, hnext]
      rfl
  | @badValue _ value _ _ e hk hv =>
      have hnext : args[i + 1]? = some value := by
        rw [← List.head?_drop, drop_succ_of_drop hd, List.head?_cons]
      simp only [parseLoop_step hd, parseStep_eq, argAt_of_drop hd, hk, hnext,
        Opt.store_of_rejects hv]
      rfl
  | @valued _ value _ opt _ _ hk hv cut ih =>
      have htail := drop_succ_of_drop hd
      have hnext : args[i + 1]? = some value := by
        rw [← List.head?_drop, htail, List.head?_cons]
      simp only [parseLoop_step hd, parseStep_eq, argAt_of_drop hd, hk, hnext,
        Opt.store_of_accepts hv]
      exact ih _ (drop_succ_of_drop htail)
  | flag hk cut ih =>
      simp only [parseLoop_step hd, parseStep_eq, argAt_of_drop hd, hk]
      exact ih _ (drop_succ_of_drop hd)
  | positional hk cut ih =>
      simp only [parseLoop_step hd, parseStep_eq, argAt_of_drop hd, hk]
      exact ih _ (drop_succ_of_drop hd)

/-! ## What the groups mean -/

/-- The value of the last group of an option. -/
def lastValue (opt : Opt) (groups : List Group) : Option String :=
  (groups.filterMap fun
    | .valued other value => if other = opt then some value else none
    | _ => none).getLast?

/-- A number is the default, or what the last value of the option begins with. -/
def NumberOf (dflt : Int) : Option String → Int → Prop
  | none, n => n = dflt
  | some text, n => ReadsInt text n

/-- A configuration is what the groups say, the last group of each option
winning, and the default where they say nothing. -/
structure Meaning (groups : List Group) (arg : Arg) : Prop where
  colorDiagnostics : arg.colorDiagnostics = (lastValue .colorDiagnostics groups).isSome
  newFile : arg.newFile = (lastValue .new groups).getD ""
  oldFile : arg.oldFile = (lastValue .old groups).getD ""
  outputName : arg.outputName = (lastValue .output groups).getD ""
  createChangeImage : arg.createChangeImage = decide (.flag .createChangeImage ∈ groups)
  binThreshold : NumberOf 200 (lastValue .threshold groups) arg.binThreshold
  crossCheck : arg.crossCheck = decide (.flag .crossCheck ∈ groups)
  threadCount : NumberOf 0 (lastValue .threadCount groups) arg.threadCount
  perf : arg.perf = decide (.flag .perf ∈ groups)

@[simp] theorem lastValue_concat_valued (opt other : Opt) (groups : List Group) (value : String) :
    lastValue opt (groups ++ [.valued other value]) =
      if other = opt then some value else lastValue opt groups := by
  by_cases h : other = opt
  · simp [lastValue, List.filterMap_append, h]
  · simp [lastValue, List.filterMap_append, h]

@[simp] theorem lastValue_concat_flag (opt : Opt) (groups : List Group) (switch : Switch) :
    lastValue opt (groups ++ [.flag switch]) = lastValue opt groups := by
  simp [lastValue, List.filterMap_append]

@[simp] theorem lastValue_concat_positional (opt : Opt) (groups : List Group) (text : String) :
    lastValue opt (groups ++ [.positional text]) = lastValue opt groups := by
  simp [lastValue, List.filterMap_append]

theorem NumberOf.unique {dflt m n : Int} {value : Option String} (hm : NumberOf dflt value m)
    (hn : NumberOf dflt value n) : m = n := by
  cases value with
  | none => exact hm.trans hn.symm
  | some text => exact ReadsInt.unique hm hn

/-- The groups determine the configuration. -/
theorem Meaning.unique {groups : List Group} {a b : Arg} (ha : Meaning groups a)
    (hb : Meaning groups b) : a = b := by
  have hthreshold := ha.binThreshold.unique hb.binThreshold
  have hthreads := ha.threadCount.unique hb.threadCount
  cases a
  cases b
  simp only [Arg.mk.injEq]
  exact ⟨ha.1.trans hb.1.symm, ha.2.trans hb.2.symm, ha.3.trans hb.3.symm, ha.4.trans hb.4.symm,
    ha.5.trans hb.5.symm, hthreshold, ha.7.trans hb.7.symm, hthreads, ha.9.trans hb.9.symm⟩

/-- The groups of a cut have values that their options accept. -/
theorem Cut.accepts {args : List String} {groups : List Group} {ending : Ending}
    (cut : Cut args groups ending) :
    ∀ opt value, Group.valued opt value ∈ groups → opt.Accepts value := by
  induction cut with
  | done | help | unknown | missing | badValue => nofun
  | valued hk hv cut ih =>
      intro opt value h
      rcases List.mem_cons.mp h with h | h
      · cases h
        exact hv
      · exact ih opt value h
  | flag hk cut ih | positional hk cut ih =>
      intro opt value h
      rcases List.mem_cons.mp h with h | h
      · cases h
      · exact ih opt value h

/-- One more group. -/
theorem Meaning.concat {groups : List Group} {arg : Arg} (h : Meaning groups arg) (group : Group)
    (hv : ∀ opt value, group = .valued opt value → opt.Accepts value) :
    Meaning (groups ++ [group]) (group.apply arg) := by
  obtain ⟨hcolor, hnew, hold, hout, hchange, hthreshold, hcross, hthreads, hperf⟩ := h
  cases group with
  | positional text => constructor <;> simpa [Group.apply]
  | flag switch =>
      cases switch with
      | createChangeImage | crossCheck | perf => constructor <;> simp_all [Group.apply, Switch.set]
  | valued opt value =>
      have hstore := Opt.store_of_accepts (hv opt value rfl) arg
      cases opt with
      | colorDiagnostics | new | old | output =>
          constructor <;> simp_all [Group.apply, Opt.store, Except.toOption]
      | threshold | threadCount =>
          obtain ⟨n, hn⟩ := hv _ value rfl rfl
          have hs := readsInt_iff.mp hn
          constructor <;>
            simp_all [Group.apply, Opt.store, Except.map, Except.toOption, NumberOf]

/-- What the loop leaves behind after the groups of a cut is their meaning. -/
theorem meaning_foldl (groups : List Group)
    (hv : ∀ opt value, Group.valued opt value ∈ groups → opt.Accepts value) :
    Meaning groups (groups.foldl Group.apply {}) := by
  induction groups using List.reverseRecOn with
  | nil => exact ⟨rfl, rfl, rfl, rfl, rfl, rfl, rfl, rfl, rfl⟩
  | append_singleton groups group ih =>
      rw [List.foldl_append]
      refine Meaning.concat (ih ?_) group ?_
      · intro opt value h
        exact hv opt value (List.mem_append_left _ h)
      · rintro opt value rfl
        exact hv opt value List.mem_concat_self

/-! ## The four outcomes -/

/-- The message of `Fatal`, if the parser ends in one. -/
def FatalMessage (groups : List Group) : Ending → String → Prop
  | .unknown text, msg => msg = "unknown command line option: " ++ text
  | .missing text, msg => msg = "option -" ++ text ++ ": argument missing"
  | .done, msg =>
      (lastValue .new groups).getD "" = "" ∧ msg = "\"-new\" option is required" ∨
        (lastValue .new groups).getD "" ≠ "" ∧ (lastValue .old groups).getD "" = "" ∧
          msg = "\"-old\" option is required"
  | .help, _ => False
  | .badValue _, _ => False

/-- A configuration with the defaults for what is zero or empty. -/
def Arg.withDefaults (maxAllowedParallelism : Nat) (arg : Arg) : Arg :=
  { arg with
    threadCount := if arg.threadCount = 0 then ↑(min maxAllowedParallelism 16) else arg.threadCount
    binThreshold := if arg.binThreshold = 0 then 200 else arg.binThreshold
    outputName := if arg.outputName = "" then "image_difference" else arg.outputName }

theorem finishArgs_eq (m : Nat) (arg : Arg) :
    finishArgs m arg =
      if arg.newFile = "" then .error (.fatal (fatalLine arg "\"-new\" option is required"))
      else if arg.oldFile = "" then
        .error (.fatal (fatalLine arg "\"-old\" option is required"))
      else .ok (arg.withDefaults m) := by
  simp only [finishArgs, String.isEmpty_iff]
  split
  · rfl
  · split
    · rfl
    · by_cases ht : arg.threadCount = 0 <;> by_cases hb : arg.binThreshold = 0 <;>
        by_cases ho : arg.outputName = "" <;>
        simp [Arg.withDefaults, getDefaultThreadCount, ht, hb, ho]

theorem parseArgs_of_cut {args : List String} {groups : List Group} {ending : Ending}
    (cut : Cut args.tail groups ending) (m : Nat) :
    parseArgs m args =
      (ending.result args (groups.foldl Group.apply {})).bind (finishArgs m) := by
  rw [parseArgs, parseLoop_of_cut cut {} List.drop_one]

/-- The parser accepts exactly its grammar: the arguments have one cut, and its
ending and its groups decide between help, an exception of `std::stoi`, `Fatal`
and a configuration. -/
theorem parseArgs_grammar (m : Nat) (args : List String) :
    ∃ groups ending,
      (∀ groups' ending', Cut args.tail groups' ending' ↔ groups' = groups ∧ ending' = ending) ∧
      (∀ out, parseArgs m args = .error (.exit out) ↔ ending = .help ∧ out = usage args) ∧
      (∀ e, parseArgs m args = .error (.exception e) ↔ ending = .badValue e) ∧
      (∀ line, parseArgs m args = .error (.fatal line) ↔
        ∃ raw msg, Meaning groups raw ∧ FatalMessage groups ending msg ∧
          line = fatalLine raw msg) ∧
      ∀ arg, parseArgs m args = .ok arg ↔
        ending = .done ∧ ∃ raw, Meaning groups raw ∧ raw.newFile ≠ "" ∧ raw.oldFile ≠ "" ∧
          arg = raw.withDefaults m := by
  obtain ⟨groups, ending, cut⟩ := Cut.exists args.tail
  have hmeaning := meaning_foldl groups cut.accepts
  have hraw : ∀ raw, Meaning groups raw ↔ raw = groups.foldl Group.apply {} :=
    fun raw => ⟨fun h => h.unique hmeaning, fun h => h ▸ hmeaning⟩
  have hnew := hmeaning.newFile
  have hold := hmeaning.oldFile
  refine ⟨groups, ending, ?_, ?_⟩
  · intro groups' ending'
    refine ⟨cut.unique, ?_⟩
    rintro ⟨rfl, rfl⟩
    exact cut
  · simp only [hraw, parseArgs_of_cut cut m, exists_eq_left, exists_and_left]
    generalize groups.foldl Group.apply {} = raw at *
    cases ending with
    | done =>
        simp only [Ending.result, Except.bind, finishArgs_eq, FatalMessage, ← hnew, ← hold]
        by_cases hn : raw.newFile = ""
        · simp [hn]
          exact fun _ => eq_comm
        · by_cases ho : raw.oldFile = ""
          · simp [hn, ho]
            exact fun _ => eq_comm
          · simp [hn, ho]
            exact fun _ => eq_comm
    | help =>
        simp [Ending.result, Except.bind, FatalMessage]
        exact fun _ => eq_comm
    | badValue e => simp [Ending.result, Except.bind, FatalMessage]
    | missing text =>
        simp [Ending.result, Except.bind, FatalMessage]
        exact fun _ => eq_comm
    | unknown text =>
        simp [Ending.result, Except.bind, FatalMessage]
        exact fun _ => eq_comm

end Gazosan
