import Promptwright.Package.SharedTypes
import Promptwright.Proofs.Package.Pieces

/-!
# The shared types as a piece of a script

The shared types that come with the program close everything that they start, wherever the
validator library is imported from.

## Key results

- `replace_typesTemplate`: the library is imported once, and from elsewhere then
- `piece_typesTemplate`: the shared types with another import
-/

namespace Promptwright

open Script (Lexeme Piece linesLexemes turn unlines)

/-! ## Other imports -/

namespace LibraryImport

/-- Nothing is imported where no `f` stands. -/
theorem length?_eq_none {c : Char} (hc : c ≠ 'f') (cs : List Char) : length? (c :: cs) = none := by
  rw [length?]
  intro cs' h
  exact hc (List.cons.inj h).1

/-- A text without `f` is left as it is. -/
theorem replaceFrom_append (replacement : List Char) {cs : List Char} (h : 'f' ∉ cs)
    (rest : List Char) :
    replaceFrom replacement 0 (cs ++ rest) = cs ++ replaceFrom replacement 0 rest := by
  induction cs with
  | nil => rfl
  | cons c cs ih =>
    simp only [List.mem_cons, not_or] at h
    rw [List.cons_append, replaceFrom, length?_eq_none (Ne.symm h.1), ih h.2]
    rfl

/-- Whether the library is imported nowhere in a text. -/
def isFree : List Char → Bool
  | [] => true
  | c :: cs => (length? (c :: cs)).isNone && isFree cs

/-- A text that does not import the library is left as it is. -/
theorem replaceFrom_eq_self (replacement : List Char) {cs : List Char} (h : isFree cs = true) :
    replaceFrom replacement 0 cs = cs := by
  induction cs with
  | nil => rfl
  | cons c cs ih =>
    obtain ⟨hc, hcs⟩ := Bool.and_eq_true_iff.mp h
    rw [replaceFrom, Option.isNone_iff_eq_none.mp hc, ih hcs]

/-- An import of the library is replaced. -/
theorem replaceFrom_import (replacement rest : List Char) :
    replaceFrom replacement 0 (['f', 'r', 'o', 'm', ' ', '\'', 'z', 'o', 'd', '\''] ++ rest) =
      replacement ++ replaceFrom replacement 0 rest := rfl

end LibraryImport

/-! ## The shared types -/

/-- Texts with their characters. -/
inductive Spelled : List String → List (List Char) → Prop
  | nil : Spelled [] []
  | cons {cs : List Char} {ss : List String} {css : List (List Char)} (h : Spelled ss css) :
      Spelled (String.ofList cs :: ss) (cs :: css)

/-- A text of lines, put together from their characters. -/
theorem Spelled.foldr_eq {ss : List String} {css : List (List Char)} (h : Spelled ss css) :
    (ss.map (· ++ "\n")).foldr (· ++ ·) "" = String.ofList (unlines css) := by
  induction h with
  | nil => rfl
  | @cons cs ss css _ ih =>
    have hend : "\n" = String.ofList ['\n'] := rfl
    rw [List.map_cons, List.foldr_cons, ih, unlines, unlines, List.flatMap_cons,
      String.ofList_append, String.ofList_append, ← hend]

/-- What is to be known about the lines below the import of the library: they are read as code
that is closed, and do not import the library again. -/
structure TypesBody (css : List (List Char)) : Prop where
  newline_not_mem : ∀ cs ∈ css, '\n' ∉ cs
  isFree : LibraryImport.isFree (unlines css) = true
  mode : (linesLexemes .code css).2 = .code
  isPlain : ∀ x ∈ (linesLexemes .code css).1, x.isPlain = true
  turn : (linesLexemes .code css).1.foldlM turn [] = some []

/-- The lines of the shared types below the import of the library. -/
theorem exists_body_typesTemplate : ∃ css, Spelled (typesTemplateLines.drop 2) css ∧ TypesBody css := by
  apply Exists.intro
  apply And.intro
  · dsimp only [typesTemplateLines, List.drop]
    repeat (first | exact .nil | apply Spelled.cons)
  · constructor <;> decide +kernel

/-- In the shared types, the import of the library is the only thing that is replaced. -/
theorem replace_typesTemplate {css : List (List Char)}
    (h : Spelled (typesTemplateLines.drop 2) css) (hb : TypesBody css) (path : String) :
    LibraryImport.replace path typesTemplate = "/* eslint-disable */" ++ "\nimport \x7b z \x7d " ++
      "from " ++ Script.quote path ++ ";\n" ++ String.ofList (unlines css) := by
  -- the text before the import, the import, and the text behind it
  have hsplit : typesTemplate = "/* eslint-disable */" ++ "\nimport \x7b z \x7d " ++ "from 'zod'" ++
      ";\n" ++ String.ofList (unlines css) := by
    have hlines : typesTemplateLines =
        "/* eslint-disable */" :: "import \x7b z \x7d from 'zod';" :: typesTemplateLines.drop 2 := rfl
    have himport : "import \x7b z \x7d from 'zod';" ++ "\n" =
        "import \x7b z \x7d " ++ "from 'zod'" ++ ";\n" := by decide
    have hstart : "\nimport \x7b z \x7d " = "\n" ++ "import \x7b z \x7d " := by decide
    rw [typesTemplate, hlines, List.map_cons, List.map_cons, List.foldr_cons, List.foldr_cons,
      h.foldr_eq, himport, hstart]
    simp only [String.append_assoc]
  have hchars : "from 'zod'".toList = ['f', 'r', 'o', 'm', ' ', '\'', 'z', 'o', 'd', '\''] := by
    decide
  have hfree : LibraryImport.isFree (";\n".toList ++ unlines css) = true := hb.isFree
  have hpre : 'f' ∉ "/* eslint-disable */".toList ++ "\nimport \x7b z \x7d ".toList := by decide
  rw [LibraryImport.replace, hsplit]
  simp only [String.toList_append, String.toList_ofList]
  rw [List.append_assoc, List.append_assoc, LibraryImport.replaceFrom_append _ hpre, hchars,
    LibraryImport.replaceFrom_import, LibraryImport.replaceFrom_eq_self _ hfree,
    LibraryImport.clause]
  have hfrom : ['f', 'r', 'o', 'm', ' '] = "from ".toList := by decide
  rw [hfrom, Script.quote]
  simp only [String.ofList_append, String.ofList_toList, String.append_assoc]

/-- The shared types are a piece, wherever the library is imported from. -/
theorem piece_typesTemplate (path : String) :
    Piece Lexeme.isPlain [] [] (LibraryImport.replace path typesTemplate) := by
  obtain ⟨css, hspelled, hbody⟩ := exists_body_typesTemplate
  rw [replace_typesTemplate hspelled hbody]
  have hcomment : Piece Lexeme.isPlain [] [] "/* eslint-disable */" :=
    (Piece.comment (b := " eslint-disable ") (Script.commentBody_of_not_mem (by decide))).plain
  exact ((((hcomment.beside (.code (by decide))).beside (.code (by decide))).beside
    (Piece.quote path).plain).beside (.code (by decide))).beside
    (.lines hbody.newline_not_mem ⟨hbody.mode, hbody.isPlain, hbody.turn⟩)

end Promptwright
