import Disasm68k.Program
import Disasm68k.Proofs.Walk

/-!
# The command line and the environment

What the command line says goes before what the environment says. If it gives both the base
address and the byte order, then the environment decides about nothing but the log: the listing
that is printed and the way the run ends are the same in every environment, except that a base
address in the environment that is no number ends the run, although it is not used.

- `Environment.IsReadable`: the base address of the environment is a number, if it is set;
- `Program.Outcome.withoutLog`: the outcome of a run, but for its log;
- `Program.run_of_readable`: a run in an environment that can be read;
- `Program.withoutLog_listImage`: the listing of an image under explicit options;
- `Program.run_under_explicit_options`: the results together.
-/

namespace Disasm68k

/-- The base address of the environment is not set, blank or a number. -/
def Environment.IsReadable (environment : Environment) : Prop :=
  (Settings.number? environment.base).isSome

instance (environment : Environment) : Decidable environment.IsReadable :=
  inferInstanceAs (Decidable (_ = true))

theorem Settings.isSome_ofEnvironment?_iff {environment : Environment} :
    (ofEnvironment? environment).isSome ↔ environment.IsReadable := by
  rw [ofEnvironment?, Option.isSome_map]
  exact Iff.rfl

namespace Program

variable {arguments : List String} {parsed : CommandLine.Arguments}
  {options : CommandLine.Options} {environment : Environment} {base : Int} {little : Bool}

/-- The outcome of a run, but for the log records shown. -/
def Outcome.withoutLog : Outcome → Outcome
  | finished output _ => finished output []
  | outcome => outcome

/-- The memory that holds an image at the base address, in the byte order of the flag. -/
def mapped (image : Array UInt8) (base : Int) (little : Bool) : Memory :=
  ⟨image, base, if little then .little else .big⟩

/-! ## Explicit options -/

theorem imageMemory?_of_explicit (hbase : options.base = .number base)
    (hlittle : options.littleEndian = some little) (settings : Settings) (image : Array UInt8) :
    imageMemory? options settings image = some (mapped image base little) := by
  simp [imageMemory?, hbase, hlittle, CommandLine.Value.number?, mapped]

theorem listImage_of_explicit (hbase : options.base = .number base)
    (hlittle : options.littleEndian = some little) (settings : Settings) (image : Array UInt8) :
    listImage options settings image =
      (range? options (mapped image base little)).elim .blankValue
        (report options settings (mapped image base little)) := by
  simp only [listImage, imageMemory?_of_explicit hbase hlittle]
  cases range? options (mapped image base little) with
  | none => rfl
  | some range => rfl

/-- The settings show in the log of a listing and nowhere else. -/
theorem withoutLog_report (options : CommandLine.Options) (settings other : Settings)
    (memory : Memory) (range : Range) :
    (report options settings memory range).withoutLog =
      (report options other memory range).withoutLog := by
  unfold report
  cases listing memory range <;> rfl

theorem withoutLog_listImage (hbase : options.base = .number base)
    (hlittle : options.littleEndian = some little) (settings other : Settings)
    (image : Array UInt8) :
    (listImage options settings image).withoutLog =
      (listImage options other image).withoutLog := by
  rw [listImage_of_explicit hbase hlittle, listImage_of_explicit hbase hlittle]
  cases range? options (mapped image base little) with
  | none => rfl
  | some range => exact withoutLog_report options settings other _ range

/-- A listing that is printed comes to its end. -/
theorem exists_lines_of_report (options : CommandLine.Options) (settings : Settings)
    (memory : Memory) (range : Range) :
    ∃ steps, listing memory range = .ok steps ∧
      (report options settings memory range).withoutLog =
        .finished (steps.map fun step => step.line.format options.bytes) [] := by
  obtain ⟨steps, hrun, -⟩ := Walk.exists_runs (Walk.inside_ofRange memory range)
  have hlisting : listing memory range = .ok steps := hrun
  refine ⟨steps, hlisting, ?_⟩
  rw [report, hlisting]
  rfl

theorem listImage_ne_badEnvironment (options : CommandLine.Options) (settings : Settings)
    (image : Array UInt8) : listImage options settings image ≠ .badEnvironment := by
  unfold listImage report
  repeat' split
  all_goals exact Outcome.noConfusion

/-! ## Runs -/

/-- What is done with an image that the command line names, once there are settings. -/
def proceed (parsed : CommandLine.Arguments) (settings : Settings) : Lookup → Outcome
  | .tooLong => .pathTooLong parsed.image
  | .missing => .misuse (.imageNotFound parsed.image)
  | .file image => listImage parsed.options settings image

theorem run_of_readable (hparse : CommandLine.parse arguments = .ok parsed)
    (hreadable : environment.IsReadable) (lookup : String → Lookup) :
    ∃ settings, run arguments environment lookup =
      proceed parsed settings (lookup parsed.image) := by
  obtain ⟨settings, hsettings⟩ := Option.isSome_iff_exists.mp
    (Settings.isSome_ofEnvironment?_iff.mpr hreadable)
  refine ⟨settings, ?_⟩
  simp only [run, hparse, hsettings]
  cases lookup parsed.image <;> rfl

theorem run_of_not_readable (hparse : CommandLine.parse arguments = .ok parsed)
    (hreadable : ¬ environment.IsReadable) (lookup : String → Lookup) :
    run arguments environment lookup = .badEnvironment := by
  rw [← Settings.isSome_ofEnvironment?_iff, Option.not_isSome_iff_eq_none] at hreadable
  simp only [run, hparse, hreadable]

theorem proceed_ne_badEnvironment (parsed : CommandLine.Arguments) (settings : Settings)
    (found : Lookup) : proceed parsed settings found ≠ .badEnvironment := by
  cases found with
  | file image => exact listImage_ne_badEnvironment _ settings image
  | missing => exact Outcome.noConfusion
  | tooLong => exact Outcome.noConfusion

theorem withoutLog_proceed (hbase : parsed.options.base = .number base)
    (hlittle : parsed.options.littleEndian = some little) (settings other : Settings)
    (found : Lookup) :
    (proceed parsed settings found).withoutLog = (proceed parsed other found).withoutLog := by
  cases found with
  | file image => exact withoutLog_listImage hbase hlittle settings other image
  | missing => rfl
  | tooLong => rfl

/-- **Explicit options go before the environment.** If the command line gives the base address and
the byte order, then in all environments with a base address that is a number, or that is not set,
the run ends in the same way and prints the same listing: that of the image at the base address and
in the byte order of the command line. A base address in the environment that is no number ends the
run instead, whatever the command line says. -/
theorem run_under_explicit_options (arguments : List String) (parsed : CommandLine.Arguments)
    (base : Int) (little : Bool) (lookup : String → Lookup)
    (hparse : CommandLine.parse arguments = .ok parsed)
    (hbase : parsed.options.base = .number base)
    (hlittle : parsed.options.littleEndian = some little) :
    (∀ environment other : Environment, environment.IsReadable → other.IsReadable →
        (run arguments environment lookup).withoutLog = (run arguments other lookup).withoutLog) ∧
      (∀ environment image range, environment.IsReadable → lookup parsed.image = .file image →
        range? parsed.options (mapped image base little) = some range →
        ∃ steps, listing (mapped image base little) range = .ok steps ∧
          (run arguments environment lookup).withoutLog =
            .finished (steps.map fun step => step.line.format parsed.options.bytes) []) ∧
      ∀ environment : Environment,
        run arguments environment lookup = .badEnvironment ↔ ¬ environment.IsReadable := by
  refine ⟨?_, ?_, ?_⟩
  · intro environment other hreadable hreadable'
    obtain ⟨settings, hrun⟩ := run_of_readable hparse hreadable lookup
    obtain ⟨settings', hrun'⟩ := run_of_readable hparse hreadable' lookup
    rw [hrun, hrun']
    exact withoutLog_proceed hbase hlittle settings settings' _
  · intro environment image range hreadable hfound hrange
    obtain ⟨settings, hrun⟩ := run_of_readable hparse hreadable lookup
    rw [hrun, hfound]
    show ∃ steps, _ ∧ (listImage parsed.options settings image).withoutLog = _
    rw [listImage_of_explicit hbase hlittle, hrange]
    exact exists_lines_of_report parsed.options settings _ range
  · intro environment
    constructor
    · intro hrun hreadable
      obtain ⟨settings, hproceed⟩ := run_of_readable hparse hreadable lookup
      exact proceed_ne_badEnvironment parsed settings _ (hproceed.symm.trans hrun)
    · intro hreadable
      exact run_of_not_readable hparse hreadable lookup

/-- The environment asks for another base address, for little-endian words and for the whole log,
and the command line goes before it. -/
theorem run_under_explicit_options_over_settings :
    let arguments := ["--base", "-4", "rom.bin", "--no-little-endian"]
    let asking : Environment := ⟨some "yes", some "1", some "0x100"⟩
    let silent : Environment := ⟨none, none, none⟩
    let lookup : String → Lookup := fun _ => .file #[0x4E, 0x71]
    asking.IsReadable ∧ silent.IsReadable ∧
      (run arguments asking lookup).withoutLog = (run arguments silent lookup).withoutLog ∧
      (run arguments asking lookup).withoutLog =
        .finished ["-00004  4E71                      NOP"] [] := by
  intro arguments asking silent lookup
  have hparse : CommandLine.parse arguments =
      .ok ⟨"rom.bin", ⟨.number (-4), .absent, .absent, .absent, some false, true, false⟩⟩ := by
    rfl
  have hasking : asking.IsReadable := by rfl
  have hsilent : silent.IsReadable := by rfl
  obtain ⟨hsame, hlisted, -⟩ :=
    run_under_explicit_options arguments _ (-4) false lookup hparse rfl rfl
  refine ⟨hasking, hsilent, hsame asking silent hasking hsilent, ?_⟩
  obtain ⟨steps, hlisting, hrun⟩ :=
    hlisted asking #[0x4E, 0x71] ⟨none, none, none⟩ hasking rfl rfl
  have hshown : (listing (mapped #[0x4E, 0x71] (-4) false) ⟨none, none, none⟩).map
      (List.map fun step => step.line.format true) =
        .ok ["-00004  4E71                      NOP"] :=
    listing_of_runWithin 1 (by decide +kernel)
  rw [hlisting] at hshown
  exact hrun.trans (congrArg (Outcome.finished · []) (Except.ok.inj hshown))

/-- A base address in the environment that is no number ends the run although the command line
gives another one. -/
theorem run_in_unreadable_environment :
    let arguments := ["--base", "0", "--no-little-endian", "rom.bin"]
    let lookup : String → Lookup := fun _ => .file #[0x4E, 0x71]
    (CommandLine.parse arguments =
        .ok ⟨"rom.bin", ⟨.number 0, .absent, .absent, .absent, some false, true, false⟩⟩) ∧
      run arguments ⟨none, none, some "rom"⟩ lookup = .badEnvironment ∧
      run arguments ⟨none, none, none⟩ lookup =
        .finished ["000000  4E71                      NOP"] [] := by
  intro arguments lookup
  have hparse : CommandLine.parse arguments =
      .ok ⟨"rom.bin", ⟨.number 0, .absent, .absent, .absent, some false, true, false⟩⟩ := by
    rfl
  refine ⟨hparse, by rfl, ?_⟩
  have hshown : ((Walk.ofRange (mapped #[0x4E, 0x71] 0 false) ⟨none, none, none⟩).runWithin
      (mapped #[0x4E, 0x71] 0 false) 1).map (fun steps =>
        (steps.map fun step => step.line.format true,
          (steps.flatMap WalkStep.log).filter (isShown false))) =
      some (["000000  4E71                      NOP"], []) := by
    decide +kernel
  obtain ⟨steps, hsteps, hreport⟩ := Option.map_eq_some_iff.mp hshown
  rw [Prod.mk.injEq] at hreport
  rw [run, hparse]
  show report _ _ (mapped #[0x4E, 0x71] 0 false) ⟨none, none, none⟩ = _
  rw [report, listing, Walk.run_of_runWithin hsteps]
  show Outcome.finished (steps.map fun step => step.line.format true)
    ((steps.flatMap WalkStep.log).filter (isShown false)) = _
  rw [hreport.1, hreport.2]

end Program

end Disasm68k
