import Gazosan.Cmdline.Grammar

/-!
# Inserting an option that sets a bool

Five texts set a bool of `Context::arg`.  Three of them are read with `read_flag`.
The two spellings of `color-diagnostics` are read with `read_arg`, which needs a
next argument and swallows it, although nothing uses the value.  So the argument
behind the inserted option is lost, and what follows it is cut anew.

`inserted_option_iff` says between which groups each option can be inserted
without any other effect.
-/

namespace Gazosan

/-! ## The options -/

/-- The bools of `Context::arg`. -/
inductive BoolField where
  | createChangeImage | crossCheck | perf | colorDiagnostics
deriving DecidableEq, Repr

/-- The configuration with a bool set. -/
def BoolField.set (arg : Arg) : BoolField → Arg
  | .createChangeImage => { arg with createChangeImage := true }
  | .crossCheck => { arg with crossCheck := true }
  | .perf => { arg with perf := true }
  | .colorDiagnostics => { arg with colorDiagnostics := true }

/-- The options that set a bool. -/
def boolOptions : List (String × BoolField) :=
  [("-create_change_image", .createChangeImage), ("-cross_check", .crossCheck), ("-perf", .perf),
    ("-color-diagnostics", .colorDiagnostics), ("--color-diagnostics", .colorDiagnostics)]

/-- What the text of an option is to the parser. -/
def BoolField.kind : BoolField → Kind
  | .createChangeImage => .flag .createChangeImage
  | .crossCheck => .flag .crossCheck
  | .perf => .flag .perf
  | .colorDiagnostics => .valued .colorDiagnostics

theorem kind_boolOption : ∀ p ∈ boolOptions, kind p.1 = p.2.kind := by decide

/-! ## Settings that do not interfere -/

section

variable (field : BoolField) (arg : Arg)

@[simp] theorem BoolField.set_newFile : (field.set arg).newFile = arg.newFile := by
  cases field <;> rfl

@[simp] theorem BoolField.set_oldFile : (field.set arg).oldFile = arg.oldFile := by
  cases field <;> rfl

/-- No group takes a bool back. -/
theorem BoolField.set_apply (group : Group) :
    group.apply (field.set arg) = field.set (group.apply arg) := by
  cases group with
  | positional text => rfl
  | flag switch => cases switch <;> cases field <;> rfl
  | valued opt value =>
      cases opt with
      | colorDiagnostics | new | old | output => cases field <;> rfl
      | threshold | threadCount =>
          simp only [Group.apply, Opt.store]
          cases stoi value <;> cases field <;> rfl

theorem BoolField.set_foldl (groups : List Group) :
    groups.foldl Group.apply (field.set arg) = field.set (groups.foldl Group.apply arg) := by
  induction groups generalizing arg with
  | nil => rfl
  | cons group groups ih => rw [List.foldl_cons, set_apply, ih, List.foldl_cons]

theorem BoolField.set_withDefaults (m : Nat) :
    (field.set arg).withDefaults m = field.set (arg.withDefaults m) := by
  cases field <;> rfl

end

/-! ## Cuts of a part of the arguments -/

/-- Arguments that are cut to their end may be followed by others. -/
theorem Cut.append {before after : List String} {groups groups' : List Group} {e ending : Ending}
    (h : Cut before groups e) (he : e = .done) (h' : Cut after groups' ending) :
    Cut (before ++ after) (groups ++ groups') ending := by
  induction h with
  | done => exact h'
  | help | unknown | missing | badValue => cases he
  | valued hk hv _ ih => exact .valued hk hv (ih he)
  | flag hk _ ih => exact .flag hk (ih he)
  | positional hk _ ih => exact .positional hk (ih he)

/-- The parser accepts arguments that are cut to their end and name both files. -/
theorem parseArgs_ok_iff {args : List String} {groups : List Group} {ending : Ending}
    (cut : Cut args.tail groups ending) (m : Nat) (arg : Arg) :
    parseArgs m args = .ok arg ↔ ending = .done ∧
      (groups.foldl Group.apply {}).newFile ≠ "" ∧ (groups.foldl Group.apply {}).oldFile ≠ "" ∧
      arg = (groups.foldl Group.apply {}).withDefaults m := by
  rw [parseArgs_of_cut cut]
  generalize groups.foldl Group.apply {} = raw
  cases ending with
  | done =>
      simp only [Ending.result, Except.bind, finishArgs_eq]
      by_cases hn : raw.newFile = ""
      · simp [hn]
      · by_cases ho : raw.oldFile = ""
        · simp [hn, ho]
        · simp [hn, ho, eq_comm]
  | help | badValue | missing | unknown => simp [Ending.result, Except.bind]

/-! ## Insertion -/

/-- The groups mean the same configuration, up to `color_diagnostics`. -/
def SameButColor (m : Nat) (groups groups' : List Group) : Prop :=
  ∃ raw raw', Meaning groups raw ∧ Meaning groups' raw' ∧
    BoolField.colorDiagnostics.set (raw'.withDefaults m) =
      BoolField.colorDiagnostics.set (raw.withDefaults m)

/-- The first of the arguments `after` can be spared behind the groups `groups`: the
others are cut to their end, and mean the same. -/
def Spares (m : Nat) (groups : List Group) (after : List String) : Prop :=
  ∃ value rest groupsAfter groupsRest, after = value :: rest ∧ Cut after groupsAfter .done ∧
    Cut rest groupsRest .done ∧ SameButColor m (groups ++ groupsAfter) (groups ++ groupsRest)

/-- A group that sets a bool does so wherever it stands. -/
theorem foldl_apply_insert {field : BoolField} {group : Group}
    (hgroup : ∀ arg, group.apply arg = field.set arg) (groups groups' : List Group) (arg : Arg) :
    (groups ++ group :: groups').foldl Group.apply arg =
      field.set ((groups ++ groups').foldl Group.apply arg) := by
  rw [List.foldl_append, List.foldl_cons, hgroup, BoolField.set_foldl, ← List.foldl_append]

section

variable {m : Nat} {name text : String} {before after : List String} {groups : List Group}
  {arg : Arg}

/-- The groups before a boundary and those behind it make up the configuration. -/
theorem exists_cut_after (hbefore : Cut before groups .done)
    (haccept : parseArgs m (name :: (before ++ after)) = .ok arg) :
    ∃ groupsAfter, Cut after groupsAfter .done ∧
      ((groups ++ groupsAfter).foldl Group.apply {}).newFile ≠ "" ∧
      ((groups ++ groupsAfter).foldl Group.apply {}).oldFile ≠ "" ∧
      arg = ((groups ++ groupsAfter).foldl Group.apply {}).withDefaults m := by
  obtain ⟨groupsAfter, ending, cut⟩ := Cut.exists after
  have hcut : Cut (name :: (before ++ after)).tail (groups ++ groupsAfter) ending :=
    hbefore.append rfl cut
  obtain ⟨rfl, hconfig⟩ := (parseArgs_ok_iff hcut m arg).mp haccept
  exact ⟨groupsAfter, cut, hconfig⟩

/-- A flag has no other effect. -/
theorem inserted_flag (hbefore : Cut before groups .done)
    (haccept : parseArgs m (name :: (before ++ after)) = .ok arg) {switch : Switch}
    {field : BoolField} (hk : kind text = .flag switch)
    (hset : ∀ arg, switch.set arg = field.set arg) :
    parseArgs m (name :: (before ++ text :: after)) = .ok (field.set arg) := by
  obtain ⟨groupsAfter, cut, hnew, hold, rfl⟩ := exists_cut_after hbefore haccept
  have hcut : Cut (name :: (before ++ text :: after)).tail
      (groups ++ .flag switch :: groupsAfter) .done := hbefore.append rfl (.flag hk cut)
  have hgroup : ∀ arg, Group.apply arg (.flag switch) = field.set arg := hset
  rw [parseArgs_ok_iff hcut, foldl_apply_insert hgroup, BoolField.set_newFile,
    BoolField.set_oldFile, BoolField.set_withDefaults]
  exact ⟨rfl, hnew, hold, rfl⟩

/-- `color-diagnostics` has no other effect if the argument behind it can be spared. -/
theorem inserted_color_iff (hbefore : Cut before groups .done)
    (haccept : parseArgs m (name :: (before ++ after)) = .ok arg)
    (hk : kind text = .valued .colorDiagnostics) :
    parseArgs m (name :: (before ++ text :: after)) =
      .ok (BoolField.colorDiagnostics.set arg) ↔ Spares m groups after := by
  obtain ⟨groupsAfter, cutAfter, hnew, hold, rfl⟩ := exists_cut_after hbefore haccept
  cases after with
  | nil =>
      have hcut : Cut (name :: (before ++ [text])).tail (groups ++ []) (.missing text) :=
        hbefore.append rfl (.missing hk)
      refine iff_of_false (fun h => ?_) ?_
      · obtain ⟨h, -⟩ := (parseArgs_ok_iff hcut _ _).mp h
        cases h
      · rintro ⟨value, rest, -, -, h, -⟩
        cases h
  | cons value rest =>
      obtain ⟨groupsRest, ending, cutRest⟩ := Cut.exists rest
      have hcut : Cut (name :: (before ++ text :: value :: rest)).tail
          (groups ++ .valued .colorDiagnostics value :: groupsRest) ending :=
        hbefore.append rfl (.valued hk nofun cutRest)
      have hraw := meaning_foldl _ (hbefore.append rfl cutAfter).accepts
      have hrawRest := meaning_foldl _ (hbefore.append rfl cutRest).accepts
      have hgroup : ∀ arg, Group.apply arg (.valued .colorDiagnostics value) =
          BoolField.colorDiagnostics.set arg := fun _ => rfl
      rw [parseArgs_ok_iff hcut, foldl_apply_insert hgroup, BoolField.set_newFile,
        BoolField.set_oldFile, BoolField.set_withDefaults]
      constructor
      · rintro ⟨rfl, -, -, hsame⟩
        exact ⟨value, rest, groupsAfter, groupsRest, rfl, cutAfter, cutRest, _, _, hraw, hrawRest,
          hsame.symm⟩
      · rintro ⟨_, _, groupsAfter', groupsRest', h, cutAfter', cutRest', raw, raw', hr, hr', hsame⟩
        cases h
        obtain ⟨rfl, -⟩ := cutAfter.unique cutAfter'
        obtain ⟨rfl, rfl⟩ := cutRest.unique cutRest'
        rw [hr.unique hraw, hr'.unique hrawRest] at hsame
        -- the files are among the settings that stay
        have hnew' := congrArg Arg.newFile hsame
        have hold' := congrArg Arg.oldFile hsame
        exact ⟨rfl, fun h => hnew (hnew'.symm.trans h), fun h => hold (hold'.symm.trans h),
          hsame.symm⟩

/-- Each option that sets a bool, inserted alone between two groups of an accepted
command line. -/
theorem inserted_option_iff (hbefore : Cut before groups .done)
    (haccept : parseArgs m (name :: (before ++ after)) = .ok arg) :
    ∀ option ∈ boolOptions,
      (parseArgs m (name :: (before ++ option.1 :: after)) = .ok (option.2.set arg) ↔
        option.2 ≠ .colorDiagnostics ∨ Spares m groups after) := by
  rintro ⟨text, field⟩ hmem
  have hk := kind_boolOption _ hmem
  simp only at hk ⊢
  cases field with
  | createChangeImage | crossCheck | perf =>
      exact iff_of_true (inserted_flag hbefore haccept hk fun _ => rfl) (.inl nofun)
  | colorDiagnostics =>
      rw [inserted_color_iff hbefore haccept hk]
      simp

end

/-! ## Samples -/

theorem cut_files :
    Cut ["-new", "new.png"] [.valued .new "new.png"] .done ∧
      Cut ["-old", "old.png"] [.valued .old "old.png"] .done :=
  ⟨.valued (by decide) nofun .done, .valued (by decide) nofun .done⟩

/-- The configuration with both files and the defaults. -/
def filesArg : Arg where
  newFile := "new.png"
  oldFile := "old.png"
  outputName := "image_difference"
  threadCount := 16

theorem parseArgs_files_only :
    parseArgs 16 ["gazosan", "-new", "new.png", "-old", "old.png"] = .ok filesArg := by
  have cut : Cut ["gazosan", "-new", "new.png", "-old", "old.png"].tail _ .done :=
    cut_files.1.append rfl cut_files.2
  rw [parseArgs_of_cut cut]
  rfl

/-- Before `-old`, the option swallows it, and the file that follows is ignored.  At
the end, the option has no value. -/
theorem color_swallows_old :
    Cut ["-new", "new.png"] [.valued .new "new.png"] .done ∧
      parseArgs 16 ["gazosan", "-new", "new.png", "-old", "old.png"] = .ok filesArg ∧
      parseArgs 16 ["gazosan", "-new", "new.png", "-color-diagnostics", "-old", "old.png"] =
        .error (.fatal (fatalLine { colorDiagnostics := true } "\"-old\" option is required")) ∧
      parseArgs 16 ["gazosan", "-new", "new.png", "-old", "old.png", "-color-diagnostics"] =
        .error (.fatal (fatalLine {} "option --color-diagnostics: argument missing")) := by
  have hcolor : kind "-color-diagnostics" = .valued .colorDiagnostics := by decide
  refine ⟨cut_files.1, parseArgs_files_only, ?_, ?_⟩
  · have cut : Cut ["gazosan", "-new", "new.png", "-color-diagnostics", "-old", "old.png"].tail _
        .done :=
      cut_files.1.append rfl (.valued hcolor nofun (.positional (by decide) .done))
    rw [parseArgs_of_cut cut]
    rfl
  · have cut : Cut ["gazosan", "-new", "new.png", "-old", "old.png", "-color-diagnostics"].tail _
        (.missing "-color-diagnostics") :=
      cut_files.1.append rfl (cut_files.2.append rfl (.missing hcolor))
    rw [parseArgs_of_cut cut]
    rfl

/-- Between the files, `-perf` has no other effect. -/
theorem perf_between_files :
    parseArgs 16 ["gazosan", "-new", "new.png", "-perf", "-old", "old.png"] =
      .ok { filesArg with perf := true } :=
  (inserted_option_iff cut_files.1 parseArgs_files_only ("-perf", .perf) (by decide)).mpr
    (.inl nofun)

end Gazosan
