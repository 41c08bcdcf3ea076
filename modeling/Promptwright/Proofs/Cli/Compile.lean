import Promptwright.Cli.Run
import Promptwright.Proofs.Package.Paths
import Promptwright.Proofs.Package.Write

/-!
# What compiling does to a disk

The command that compiles prompts looks at the disk as long as there is something left that can go
wrong with the prompts, and writes only then.  So it leaves the disk alone if it fails before, and if
it succeeds it has changed the files that it wrote and added directories on the way to them.

## Key results

- `compile_cases`: either nothing is written, or all prompts are compiled
- `run_compile_changes`: what a run changes that compiles prompts
-/

namespace Promptwright

namespace Cli

variable {home : String} {files : FileTree} {out language pattern dir root : String}
  {outputs : List OutputFile}

/-- The files that compiling the prompts below a directory gives. -/
def Compiles (files : FileTree) (language pattern dir root : String) (outputs : List OutputFile) :
    Prop :=
  ∃ dialect prompts, Dialects.builtin.get? language = some dialect ∧
    Prompt.loadAll files dir pattern = .ok prompts ∧
    ({ templates := .below root } : Compiler).compile files dialect
      (prompts.map PromptFile.prompt) = .ok outputs

/-- Among them is the index, which has a relative path. -/
theorem Compiles.exists_relative (h : Compiles files language pattern dir root outputs) :
    ∃ f ∈ outputs, Path.isAbsolute f.path = false := by
  obtain ⟨d, prompts, -, -, h⟩ := h
  obtain ⟨assembled, hassembled, hout⟩ := Compiler.map_path_of_compile h
  obtain ⟨types, -, -, hpaths⟩ := Compiler.map_path_of_assemble hassembled
  have hmem : d.fileName "index" ∈ outputs.map OutputFile.path := by
    rw [hout, hpaths, modulePaths]
    simp
  obtain ⟨f, hf, hpath⟩ := List.mem_map.mp hmem
  refine ⟨f, hf, ?_⟩
  rw [hpath, Dialect.fileName, String.append_assoc, Path.isAbsolute_append (by decide)]
  rfl

/-- The command fails and leaves the disk alone, or it has compiled all prompts and goes on to write
the files. -/
theorem compile_cases (files : FileTree) (out language pattern dir root : String) :
    (∃ e, (∀ e', e ≠ .writing e') ∧
      compile files out language pattern dir root = .failed files e) ∨
    ∃ outputs, Compiles files language pattern dir root outputs ∧
      ((∃ t e, OutputFile.writeAll files out outputs = (t, .error e) ∧
        compile files out language pattern dir root = .failed t (.writing e)) ∨
      ∃ t paths, OutputFile.writeAll files out outputs = (t, .ok paths) ∧
        compile files out language pattern dir root = .success t "") := by
  -- every step ends the command with an error of its own or hands on what it made
  rw [compile]
  split
  next => exact .inl ⟨.unknownLanguage language Dialects.builtin.names, nofun, rfl⟩
  next dialect hdialect =>
  split
  next e _ => exact .inl ⟨.loading dir e, nofun, rfl⟩
  next prompts hprompts =>
  dsimp only
  split
  next e _ => exact .inl ⟨.compiling language e, nofun, rfl⟩
  next outputs houtputs =>
  refine .inr ⟨outputs, ⟨dialect, prompts, hdialect, hprompts, houtputs⟩, ?_⟩
  split
  next t e h => exact .inl ⟨t, e, h, rfl⟩
  next t paths h => exact .inr ⟨t, paths, h, rfl⟩

/-- What a run that compiles prompts does to the disk.  If it fails before it writes, nothing at all
changes, and if it fails while it writes, all prompts were compiled by then.  If it succeeds, all
paths that are reported lead to files, and what changes is one of these files, or a directory that was
missing on the way to one. -/
theorem run_compile_changes {args : List String}
    (h : Request.parse home args = .run (.compile out language pattern dir root)) :
    ((run home files args).code = 1 → (∀ e, (run home files args).failure ≠ some (.writing e)) →
      (run home files args).files = files) ∧
    (∀ e, (run home files args).failure = some (.writing e) →
      ∃ outputs, Compiles files language pattern dir root outputs ∧
        OutputFile.writeAll files out outputs = ((run home files args).files, .error e)) ∧
    ((run home files args).code = 0 →
      ∃ outputs paths, Compiles files language pattern dir root outputs ∧
        OutputFile.writeAll files out outputs = ((run home files args).files, .ok paths) ∧
        (run home files args).files.current = files.current ∧
        (∀ path ∈ paths, (run home files args).files.isFile path = true) ∧
        ∀ loc, (run home files args).files.get? loc ≠ files.get? loc →
          (∃ path ∈ paths, (run home files args).files.resolve path = .ok loc) ∨
          (files.get? loc = none ∧ (run home files args).files.get? loc = some .directory ∧
            ∃ path ∈ paths, (run home files args).files.Passes path loc)) := by
  have hrun : run home files args = compile files out language pattern dir root := by
    rw [run, h]
    rfl
  rw [hrun]
  obtain ⟨e, hne, hfailed⟩ | ⟨outputs, hcompiles, hwritten⟩ :=
    compile_cases files out language pattern dir root
  · rw [hfailed]
    refine ⟨fun _ _ => rfl, fun e' he => ?_, nofun⟩
    exact absurd (Option.some.inj he) (hne e')
  obtain ⟨t, e, hwrite, hfailed⟩ | ⟨t, paths, hwrite, hsuccess⟩ := hwritten
  · rw [hfailed]
    refine ⟨fun _ hnot => absurd rfl (hnot e), fun e' he => ⟨outputs, hcompiles, ?_⟩, nofun⟩
    cases he
    exact hwrite
  · rw [hsuccess]
    refine ⟨nofun, nofun, fun _ => ⟨outputs, paths, hcompiles, hwrite, ?_⟩⟩
    have hup := OutputFile.writeAll_updates files out outputs
    rw [hwrite] at hup
    obtain ⟨rfl, hfiles⟩ := OutputFile.writeAll_eq_ok hwrite
    refine ⟨hup.current, hfiles, fun loc hloc => ?_⟩
    obtain heq | ⟨hpasses, hnone, hdir⟩ | ⟨⟨f, hf, hresolve⟩, -, -⟩ := hup.entry loc
    · exact absurd heq hloc
    · refine .inr ⟨hnone, hdir, ?_⟩
      obtain hpasses | ⟨f, hf, hpasses⟩ := hpasses
      · -- the way to the output directory is the start of the way to the index
        obtain ⟨f, hf, hrelative⟩ := hcompiles.exists_relative
        have hstart := Path.startOf_join out hrelative
        exact ⟨f.target out, List.mem_map_of_mem hf, hpasses.of_startOf hstart⟩
      · exact ⟨f.target out, List.mem_map_of_mem hf, hpasses⟩
    · exact .inl ⟨f.target out, List.mem_map_of_mem hf, hresolve⟩

/-- A disk with a prompt. -/
def onePrompt : FileTree where
  entries := [(["p.json"], .file "\x7b\"name\": \"a\", \"system_prompt\": \"b\"\x7d".toUTF8)]
  current := []

/-- The arguments that ask for it to be compiled. -/
def toCompile (language : String) : List String :=
  ["compile", "-o", "gen/out", "-l", language, "-m", "*.json"]

/-- Where nobody knows the language, or the templates of the program's own package are missing, the disk
stays as it is, and otherwise nothing changes but the files that are written and the directories that
they go to. -/
theorem run_compile_changes_onePrompt :
    Request.parse "/promptc" (toCompile "cobol") =
        .run (.compile "gen/out" "cobol" "*.json" "." "/promptc") ∧
      (run "/promptc" onePrompt (toCompile "cobol")).files = onePrompt ∧
      Request.parse "/promptc" (toCompile "typescript") =
        .run (.compile "gen/out" "typescript" "*.json" "." "/promptc") ∧
      (run "/promptc" onePrompt (toCompile "typescript")).failure = some (.compiling "typescript"
        (.template "/promptc/templates/typescript" .notFound)) ∧
      (run "/promptc" onePrompt (toCompile "typescript")).files = onePrompt ∧
      Request.parse "/promptc" (toCompile "node") =
        .run (.compile "gen/out" "node" "*.json" "." "/promptc") ∧
      ∃ paths : List String,
        (∀ path ∈ paths, (run "/promptc" onePrompt (toCompile "node")).files.isFile path = true) ∧
        ∀ loc, (run "/promptc" onePrompt (toCompile "node")).files.get? loc ≠ onePrompt.get? loc →
          (∃ path ∈ paths,
            (run "/promptc" onePrompt (toCompile "node")).files.resolve path = .ok loc) ∨
          (onePrompt.get? loc = none ∧
            (run "/promptc" onePrompt (toCompile "node")).files.get? loc = some .directory ∧
            ∃ path ∈ paths, (run "/promptc" onePrompt (toCompile "node")).files.Passes path loc) := by
  -- the runs are short enough to be evaluated
  have hunknown : Request.parse "/promptc" (toCompile "cobol") =
      .run (.compile "gen/out" "cobol" "*.json" "." "/promptc") := by decide +kernel
  have hcobol : (run "/promptc" onePrompt (toCompile "cobol")).code = 1 ∧
      (run "/promptc" onePrompt (toCompile "cobol")).failure =
        some (.unknownLanguage "cobol" Dialects.builtin.names) := by decide +kernel
  have htyped : Request.parse "/promptc" (toCompile "typescript") =
      .run (.compile "gen/out" "typescript" "*.json" "." "/promptc") := by decide +kernel
  have hmissing : (run "/promptc" onePrompt (toCompile "typescript")).code = 1 ∧
      (run "/promptc" onePrompt (toCompile "typescript")).failure = some (.compiling "typescript"
        (.template "/promptc/templates/typescript" .notFound)) := by decide +kernel
  have huntyped : Request.parse "/promptc" (toCompile "node") =
      .run (.compile "gen/out" "node" "*.json" "." "/promptc") := by decide +kernel
  have hzero : (run "/promptc" onePrompt (toCompile "node")).code = 0 := by decide +kernel
  refine ⟨hunknown, ?_, htyped, hmissing.2, ?_, huntyped, ?_⟩
  · refine (run_compile_changes hunknown).1 hcobol.1 fun e he => ?_
    rw [hcobol.2] at he
    cases he
  · refine (run_compile_changes htyped).1 hmissing.1 fun e he => ?_
    rw [hmissing.2] at he
    cases he
  · obtain ⟨-, paths, -, -, -, hfiles, hchanges⟩ := (run_compile_changes huntyped).2.2 hzero
    exact ⟨paths, hfiles, hchanges⟩

end Cli

end Promptwright
