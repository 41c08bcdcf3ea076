import Promptwright.Proofs.Package.Bindings
import Promptwright.Proofs.Package.Schedule

/-!
# Prompts with the same path

The path of a module is made of the slug of a prompt and its version.  A slug may itself end like a
version, but behind the last `v` of a path there is nothing but the version, so a path tells both.
Assembling keeps count of the paths of modules: it stops at the first prompt whose path is taken,
and there is no other way in which it fails once types and modules are there.

## Key results

- `stemOf_eq_iff`: when the modules of two prompts have the same name
- `repeatedPath?_map_eq_some_iff`: the prompt at which counting stops
- `assemble_fails_iff_sameFile`: when assembling fails, and where
-/

namespace Promptwright

/-! ## Names of modules -/

namespace ModuleContent

/-- The characters of the name of a module. -/
theorem toList_stemOf (p : Prompt) :
    (stemOf p).toList = ((Identifiers.ofLabel p.name).fileSlug.toList ++ "_v".toList) ++
      Nat.toDigits 10 p.version := by
  rw [stemOf, String.toList_append, String.toList_append, Nat.toString_eq_ofList_toDigits,
    String.toList_ofList (l := Nat.toDigits 10 p.version)]

/-- Two modules have the same name exactly if their prompts have the same slug and version. -/
theorem stemOf_eq_iff {p q : Prompt} : stemOf p = stemOf q ↔
    (Identifiers.ofLabel p.name).fileSlug = (Identifiers.ofLabel q.name).fileSlug ∧
      p.version = q.version := by
  constructor
  · intro h
    have hchars := congrArg String.toList h
    rw [toList_stemOf, toList_stemOf] at hchars
    -- whatever the slug ends in, a `v` stands in front of the digits of the version
    have hlast : ∀ (slug : List Char) c, (slug ++ "_v".toList).getLast? = some c →
        c.isDigit = false := by
      intro slug c hc
      rw [List.getLast?_append_of_ne_nil _ (by decide)] at hc
      obtain rfl : 'v' = c := Option.some.inj hc
      decide
    obtain ⟨hslug, hversion⟩ := append_toDigits_inj (hlast _) (hlast _) hchars
    exact ⟨String.toList_inj.mp (List.append_cancel_right hslug), hversion⟩
  · rintro ⟨hslug, hversion⟩
    rw [stemOf, stemOf, hslug, hversion]

example : stemOf { name := "a v1", version := 2, system := "" } = "a_v1_v2" := by decide +kernel

end ModuleContent

/-! ## Assembling -/

/-- Whether the modules of two prompts go to the same file. -/
def Prompt.SameFile (p q : Prompt) : Prop :=
  (Identifiers.ofLabel p.name).fileSlug = (Identifiers.ofLabel q.name).fileSlug ∧
    p.version = q.version

instance (p q : Prompt) : Decidable (p.SameFile q) := inferInstanceAs (Decidable (_ ∧ _))

namespace Compiler

variable {c : Compiler} {files : FileTree} {d : Dialect} {ps : List Prompt}

/-- Whether the file of a prompt is taken by one of those in front of it, while no two of these go
to the same file. -/
structure FirstTaken (before : List Prompt) (p : Prompt) : Prop where
  distinct : before.Pairwise fun q r => ¬ q.SameFile r
  taken : ∃ q ∈ before, q.SameFile p

/-- Prompts have the same path exactly if they go to the same file. -/
theorem fileName_stemOf_eq_iff {p q : Prompt} :
    d.fileName (ModuleContent.stemOf p) = d.fileName (ModuleContent.stemOf q) ↔ p.SameFile q :=
  (fileName_injective d).eq_iff.trans ModuleContent.stemOf_eq_iff

/-- Counting the paths of modules stops at the first prompt whose file is taken. -/
theorem repeatedPath?_map_eq_some_iff {path : String} :
    repeatedPath? [] (ps.map fun p => d.fileName (ModuleContent.stemOf p)) = some path ↔
      ∃ before p after, ps = before ++ p :: after ∧ FirstTaken before p ∧
        path = d.fileName (ModuleContent.stemOf p) := by
  rw [repeatedPath?_eq_some_iff]
  constructor
  -- no path was taken at the start, so the one that is taken belongs to a prompt further in front
  · rintro ⟨_, _, heq, hnodup, -, htaken⟩
    obtain ⟨before, rest, rfl, rfl, hrest⟩ := List.map_eq_append_iff.mp heq
    obtain ⟨p, after, rfl, rfl, -⟩ := List.map_eq_cons_iff.mp hrest
    refine ⟨before, p, after, rfl, ⟨?_, ?_⟩, rfl⟩
    · rw [List.Nodup, List.pairwise_map] at hnodup
      exact hnodup.imp fun hne hsame => hne (fileName_stemOf_eq_iff.mpr hsame)
    · obtain ⟨q, hq, hpath⟩ := List.mem_map.mp (htaken.resolve_left List.not_mem_nil)
      exact ⟨q, hq, fileName_stemOf_eq_iff.mp hpath⟩
  · rintro ⟨before, p, after, rfl, ⟨hdistinct, q, hq, hsame⟩, rfl⟩
    refine ⟨before.map _, after.map _, by rw [List.map_append, List.map_cons], ?_, nofun, .inr ?_⟩
    · rw [List.Nodup, List.pairwise_map]
      exact hdistinct.imp fun hne hpath => hne (fileName_stemOf_eq_iff.mp hpath)
    · exact List.mem_map.mpr ⟨q, hq, fileName_stemOf_eq_iff.mpr hsame⟩

/-- If counting never stops, all prompts go to different files. -/
theorem pairwise_of_repeatedPath?
    (h : repeatedPath? [] (ps.map fun p => d.fileName (ModuleContent.stemOf p)) = none) :
    ps.Pairwise fun p q => ¬ p.SameFile q := by
  have hnodup := (nodup_of_repeatedPath? h).1
  rw [List.Nodup, List.pairwise_map] at hnodup
  exact hnodup.imp fun hne hsame => hne (fileName_stemOf_eq_iff.mpr hsame)

/-- Once types and modules are there, assembling fails exactly where counting stops, and otherwise
gives the types, the modules and the index. -/
theorem assemble_cases {types : List OutputFile} {ms : List ModuleContent}
    (htypes : sharedTypes files c.templates d = .ok types)
    (hms : List.Forall₂ (fun p m => ModuleContent.ofPrompt p = .ok m) ps ms) :
    (∃ path, repeatedPath? [] (ps.map fun p => d.fileName (ModuleContent.stemOf p)) = some path ∧
      c.assemble files d ps = .error (.twoPrompts path)) ∨
    (ps.Pairwise (fun p q => ¬ p.SameFile q) ∧
      c.assemble files d ps = .ok (types ++ (ms.map (·.file d) ++ [indexFile d ms]))) := by
  have hmodules : mapInOrder c.schedule.modules moduleOf ps = .ok ms :=
    mapInOrder_eq_ok_iff.mpr (hms.imp fun _ _ hm => by rw [moduleOf, hm])
  -- the stem of a prompt ends in its version, and that of the index does not
  have hindex : (indexFile d ms).path ∉ ps.map fun p => d.fileName (ModuleContent.stemOf p) := by
    intro hmem
    obtain ⟨p, -, hp⟩ := List.mem_map.mp hmem
    exact fileName_stemOf_ne d p (by decide) hp
  rw [assemble, htypes, hmodules]
  simp only [finish, map_path_of_forall₂ hms, bind, Except.bind]
  cases hrepeated : repeatedPath? [] (ps.map fun p => d.fileName (ModuleContent.stemOf p)) with
  | some path => exact .inl ⟨path, rfl, rfl⟩
  | none =>
    rw [if_neg (mt List.contains_iff_mem.mp hindex)]
    exact .inr ⟨pairwise_of_repeatedPath? hrepeated, rfl⟩

/-- Where the file of one prompt is taken, not all prompts go to different files. -/
theorem FirstTaken.not_pairwise {before after : List Prompt} {p : Prompt}
    (h : FirstTaken before p) : ¬ (before ++ p :: after).Pairwise fun p q => ¬ p.SameFile q := by
  intro hpairwise
  obtain ⟨q, hq, hsame⟩ := h.taken
  exact (List.pairwise_append.mp hpairwise).2.2 q hq p List.mem_cons_self hsame

/-- Assembling prompts that have modules fails exactly if two of them have the same slug and the
same version.  It is always the file of the first prompt whose path is taken that the error names,
never that of the index.  If it succeeds, there is one module for each prompt, and no two files of
these and the index have the same path. -/
theorem assemble_fails_iff_sameFile {types : List OutputFile}
    (htypes : sharedTypes files c.templates d = .ok types)
    (hps : ∀ p ∈ ps, ∃ m, ModuleContent.ofPrompt p = .ok m) :
    ((∃ e, c.assemble files d ps = .error e) ↔ ¬ ps.Pairwise fun p q => ¬ p.SameFile q) ∧
    (∀ e, c.assemble files d ps = .error e →
      ∃ before p after, ps = before ++ p :: after ∧ FirstTaken before p ∧
        e = .twoPrompts (d.fileName (ModuleContent.stemOf p)) ∧
        e.message = "Unexpected error: two prompts produce the output file '" ++
          d.fileName (ModuleContent.stemOf p) ++ "'") ∧
    (∀ path, c.assemble files d ps ≠ .error (.promptAtIndex path)) ∧
    ∀ out, c.assemble files d ps = .ok out →
      ∃ modules index, out = types ++ (modules ++ [index]) ∧ modules.length = ps.length ∧
        modules.map OutputFile.path = ps.map (fun p => d.fileName (ModuleContent.stemOf p)) ∧
        index.path = d.fileName "index" ∧ ((modules ++ [index]).map OutputFile.path).Nodup := by
  obtain ⟨ms, hms⟩ := exists_mapM_eq_ok hps
  have hms := mapM_eq_ok hms
  -- the same list of paths decides both whether it fails and which file it names
  obtain ⟨path, hpath, hassemble⟩ | ⟨hdistinct, hassemble⟩ := assemble_cases htypes hms
  · obtain ⟨before, p, after, rfl, hfirst, rfl⟩ := repeatedPath?_map_eq_some_iff.mp hpath
    rw [hassemble]
    refine ⟨⟨fun _ => hfirst.not_pairwise, fun _ => ⟨_, rfl⟩⟩, fun e he => ?_, nofun, nofun⟩
    cases he
    exact ⟨before, p, after, rfl, hfirst, rfl, rfl⟩
  · have hpaths := map_path_of_assemble hassemble
    rw [hassemble]
    refine ⟨⟨nofun, fun h => absurd hdistinct h⟩, nofun, nofun, fun out hout => ?_⟩
    cases hout
    refine ⟨ms.map (·.file d), indexFile d ms, rfl, ?_, map_path_of_forall₂ hms, rfl, ?_⟩
    · rw [List.length_map, hms.length_eq]
    · obtain ⟨types', htypes', hnodup, hpaths⟩ := hpaths
      cases htypes.symm.trans htypes'
      rw [List.map_append, List.append_cancel_left_eq] at hpaths
      rwa [hpaths]

/-- Prompts whose slugs look like versions, and one that is there twice. -/
def greetings : List Prompt := [
  { name := "hi v1", system := "" },
  { name := "hi", system := "" },
  { name := "hi v1", version := 11, system := "" },
  { name := "Hi  V1!", system := "" },
  { name := "hi", system := "" }]

/-- The last prompt but one is the first whose file is taken. -/
theorem assemble_fails_iff_sameFile_greetings :
    sharedTypes ⟨[], []⟩ ({} : Compiler).templates .nodeEsm = .ok [] ∧
      (∀ p ∈ greetings, ∃ m, ModuleContent.ofPrompt p = .ok m) ∧
      (∃ e, ({} : Compiler).assemble ⟨[], []⟩ .nodeEsm greetings = .error e) ∧
      (∀ e, ({} : Compiler).assemble ⟨[], []⟩ .nodeEsm greetings = .error e →
        ∃ before p after, greetings = before ++ p :: after ∧ FirstTaken before p ∧
          e = .twoPrompts (Dialect.nodeEsm.fileName (ModuleContent.stemOf p)) ∧
          e.message = "Unexpected error: two prompts produce the output file '" ++
            Dialect.nodeEsm.fileName (ModuleContent.stemOf p) ++ "'") ∧
      ∃ out, ({} : Compiler).assemble ⟨[], []⟩ .nodeEsm (greetings.take 3) = .ok out := by
  have htypes : sharedTypes ⟨[], []⟩ ({} : Compiler).templates .nodeEsm = .ok [] := rfl
  have hmodules : ∀ p ∈ greetings, ∃ m, ModuleContent.ofPrompt p = .ok m := by
    simp only [greetings, List.forall_mem_cons]
    exact ⟨⟨_, rfl⟩, ⟨_, rfl⟩, ⟨_, rfl⟩, ⟨_, rfl⟩, ⟨_, rfl⟩, nofun⟩
  have htwice : ¬ greetings.Pairwise fun p q => ¬ p.SameFile q := by decide +kernel
  have hfails := assemble_fails_iff_sameFile htypes hmodules
  refine ⟨htypes, hmodules, hfails.1.mpr htwice, hfails.2.1, ?_⟩
  have hdistinct : (greetings.take 3).Pairwise fun p q => ¬ p.SameFile q := by decide +kernel
  have hmodules' : ∀ p ∈ greetings.take 3, ∃ m, ModuleContent.ofPrompt p = .ok m :=
    fun p hp => hmodules p (List.mem_of_mem_take hp)
  cases hassemble : ({} : Compiler).assemble ⟨[], []⟩ .nodeEsm (greetings.take 3) with
  | ok out => exact ⟨out, rfl⟩
  | error e =>
    exact absurd hdistinct ((assemble_fails_iff_sameFile htypes hmodules').1.mp ⟨e, hassemble⟩)

end Compiler

end Promptwright
