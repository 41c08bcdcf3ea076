import Promptwright.Proofs.Script.Symbols

/-!
# The statements of a script

`statementsOf` cuts a script behind every semicolon of its code and reads each part: a constant with
the text of its value, a name for a type, an export, or an import.  A constant is the same statement
whether it is exported at once and whether it comes with a type, and an import is the same whether it
is a statement of its own or a call.  What is none of these is kept as it is, so that nothing is
passed over.

## Key results

- `Consists.append`, `Consists.flatMap`: texts in a row
- `Consists.bound`: a constant, whatever its value is
- `Consists.read`: a statement that is given by its symbols
- `Consists.statementsOf_eq`: the statements of a script
-/

namespace Promptwright.Script

/-! ## Statements -/

/-- A statement of a script. -/
inductive Statement
  /-- A constant and the text of its value. -/
  | binds (name value : String)
  /-- A name for the type of what a constant describes. -/
  | names (type constant : String)
  /-- A constant is exported under its own name. -/
  | exports (name : String)
  /-- A name is imported from another script, which is given by what stands between the quotes. -/
  | imports (name : String) (body : List Char)
  | unread (text : String)
deriving DecidableEq, Repr

namespace Statement

/-- The constant and the text of its value. -/
def bound? : Statement → Option (String × String)
  | binds x v => some (x, v)
  | _ => none

/-- Whether a statement is one that is known. -/
def isRead : Statement → Bool
  | unread _ => false
  | _ => true

end Statement

/-- The name of the type of what a constant describes. -/
def inferred (x : List Char) : List Symbol :=
  [.name ['z'], .mark '.', .name ['i', 'n', 'f', 'e', 'r'], .mark '<',
    .name ['t', 'y', 'p', 'e', 'o', 'f'], .name x, .mark '>', .mark ';']

/-- The statement with some symbols, if it is known.  The text of the value is given for the case
that it binds one. -/
def statement? (value : String) : List Symbol → Option Statement
  | .keyword .const :: .name x :: .mark '=' :: _ => some (.binds (String.ofList x) value)
  | .keyword .const :: .name x :: .mark ':' :: .name _ :: .mark '=' :: _ =>
    some (.binds (String.ofList x) value)
  | .keyword .exporting :: .keyword .const :: .name x :: .mark '=' :: _ =>
    some (.binds (String.ofList x) value)
  | .keyword .exporting :: .keyword .const :: .name x :: .mark ':' :: .name _ :: .mark '=' :: _ =>
    some (.binds (String.ofList x) value)
  | [.keyword .const, .mark '\x7b', .name x, .mark '\x7d', .mark '=', .keyword .require, .mark '(',
      .text body, .mark ')', .mark ';'] => some (.imports (String.ofList x) body)
  | [.keyword .importing, .mark '\x7b', .name x, .mark '\x7d', .keyword .source, .text body,
      .mark ';'] => some (.imports (String.ofList x) body)
  | [.keyword .importing, .keyword .type, .mark '\x7b', .name x, .mark '\x7d', .keyword .source,
      .text body, .mark ';'] => some (.imports (String.ofList x) body)
  | [.keyword .module, .mark '.', .keyword .exports, .mark '.', .name x, .mark '=', .name y,
      .mark ';'] => if x = y then some (.exports (String.ofList x)) else none
  | .keyword .type :: .name t :: .mark '=' :: ss => named t ss
  | .keyword .exporting :: .keyword .type :: .name t :: .mark '=' :: ss => named t ss
  | _ => none
where
  /-- A name for a type, which is that of a constant. -/
  named (t : List Char) : List Symbol → Option Statement
    | [a, b, c, d, e, .name x, f, g] =>
      if [a, b, c, d, e, .name x, f, g] = inferred x then
        some (.names (String.ofList t) (String.ofList x))
      else none
    | _ => none

/-- The text of lexemes. -/
def textOf (ls : List Lexeme) : String := String.ofList (ls.flatMap Lexeme.text)

/-- The symbols of lexemes. -/
def symbolsOf (ls : List Lexeme) : List Symbol :=
  let (ss, w) := symbolRun [] ls
  ss ++ endName w []

/-- What a statement with a semicolon at its end binds a name to: all that stands behind the first
equals sign and the space after it. -/
def valueOf (ls : List Lexeme) : List Lexeme :=
  ((ls.dropWhile (· != .code '=')).drop 2).dropLast

/-- The statement that lexemes are read as. -/
def readStatement (ls : List Lexeme) : Statement :=
  (statement? (textOf (valueOf ls)) (symbolsOf ls)).getD (.unread (textOf ls))

/-- The complete statements among some lexemes, each with its semicolon, and what stands behind the
last one, given what stands in front of the first one. -/
def cut (done : List Lexeme) : List Lexeme → List (List Lexeme) × List Lexeme
  | [] => ([], done)
  | x :: ls =>
    if x = .code ';' then ((done ++ [x]) :: (cut [] ls).1, (cut [] ls).2)
    else cut (done ++ [x]) ls

/-- Whether a lexeme is a space or the end of a line. -/
def Lexeme.isGap (x : Lexeme) : Bool := x == .code ' ' || x == .lineEnd

/-- The statements of a script. -/
def statementsOf (script : String) : List Statement :=
  let (parts, rest) := cut [] (lexemes script)
  parts.map readStatement ++ if rest.all Lexeme.isGap then [] else [.unread (textOf rest)]

example : statementsOf "const a: A = f(\";\"); // ;\n\nmodule.exports.a = a;\nb" =
    [.binds "a" "f(\";\")", .exports "a", .unread "\nb"] := by
  decide +kernel

/-! ## Cutting -/

/-- Lexemes in a row are cut one after the other. -/
theorem cut_append (done ls ms : List Lexeme) :
    cut done (ls ++ ms) = ((cut done ls).1 ++ (cut (cut done ls).2 ms).1,
      (cut (cut done ls).2 ms).2) := by
  induction ls generalizing done with
  | nil => rfl
  | cons x ls ih =>
    rw [List.cons_append, cut, cut]
    split
    · rw [ih]
      rfl
    · exact ih _

/-- Inside of a statement nothing is cut. -/
theorem cut_inner {ls : List Lexeme} (h : ∀ x ∈ ls, x.isInner = true) (done : List Lexeme) :
    cut done ls = ([], done ++ ls) := by
  induction ls generalizing done with
  | nil => rw [List.append_nil, cut]
  | cons x ls ih =>
    have hx : x.isInner = true := h x List.mem_cons_self
    have hne : x ≠ .code ';' := by
      rintro rfl
      cases hx
    rw [cut, if_neg hne, ih fun y hy => h y (List.mem_cons_of_mem _ hy), List.append_assoc]
    rfl

/-- A statement is cut behind its semicolon. -/
theorem cut_statement {ls : List Lexeme} (h : ∀ x ∈ ls, x.isInner = true) (done : List Lexeme) :
    cut done (ls ++ [Lexeme.code ';']) = ([done ++ (ls ++ [Lexeme.code ';'])], []) := by
  rw [cut_append, cut_inner h, cut, if_pos rfl, cut, List.append_assoc]
  rfl

/-- The value stands between the first equals sign and the semicolon. -/
theorem valueOf_eq {front value : List Lexeme} (h : ∀ x ∈ front, x ≠ .code '=') :
    valueOf (front ++ Lexeme.code '=' :: .code ' ' :: (value ++ [Lexeme.code ';'])) = value := by
  have hfront : ∀ x ∈ front, (x != .code '=') = true := fun x hx => by simpa using h x hx
  have hsign : ((.code '=' : Lexeme) != .code '=') = false := by decide
  rw [valueOf, List.dropWhile_append_of_pos hfront, List.dropWhile_cons, hsign,
    if_neg Bool.false_ne_true, List.drop_succ_cons, List.drop_succ_cons, List.drop_zero,
    List.dropLast_concat]

/-- The value in a statement with spaces and ends of lines in front of it. -/
theorem valueOf_statement {done front value : List Lexeme} (hdone : ∀ x ∈ done, x.isGap = true)
    (h : ∀ x ∈ front, x ≠ .code '=') :
    valueOf (done ++ (front ++ [Lexeme.code '=', .code ' '] ++ value ++ [Lexeme.code ';'])) =
      value := by
  have hsplit : done ++ (front ++ [Lexeme.code '=', .code ' '] ++ value ++ [Lexeme.code ';']) =
      (done ++ front) ++ Lexeme.code '=' :: .code ' ' :: (value ++ [Lexeme.code ';']) := by simp
  rw [hsplit]
  refine valueOf_eq fun x hx => ?_
  obtain hx | hx := List.mem_append.mp hx
  · rintro rfl
    exact absurd (hdone _ hx) (by decide)
  · exact h x hx

/-- The text of the lexemes of a text is this text. -/
theorem ReadAs.textOf_eq {t : String} {ls : List Lexeme} (h : ReadAs t ls) : textOf ls = t := by
  rw [textOf, ← h.lexemes_eq, lexemes, flatMap_text_lexemesFrom, String.ofList_toList]

/-- Spaces and ends of lines are no symbols. -/
theorem symbolRun_gap {ls : List Lexeme} (h : ∀ x ∈ ls, x.isGap = true) :
    symbolRun [] ls = ([], []) := by
  induction ls with
  | nil => rfl
  | cons x ls ih =>
    have ih := ih fun y hy => h y (List.mem_cons_of_mem _ hy)
    have hx : x.isGap = true := h x List.mem_cons_self
    rw [Lexeme.isGap, Bool.or_eq_true, beq_iff_eq, beq_iff_eq] at hx
    obtain rfl | rfl := hx
    · have hspace : isNamePart ' ' = false ∧ Text.isBlank ' ' = true := by decide
      simp [symbolRun, hspace, ih, endName]
    · simp [symbolRun, ih, endName]

/-! ## What texts consist of -/

/-- A text that consists of statements.  Spaces and ends of lines may stand in front
of it and behind it. -/
def Consists (t : String) (ss : List Statement) : Prop :=
  ∃ ls, ReadAs t ls ∧ ∀ done : List Lexeme, (∀ x ∈ done, x.isGap = true) →
    (cut done ls).1.map readStatement = ss ∧ ∀ x ∈ (cut done ls).2, x.isGap = true

namespace Consists

variable {t u : String} {ss ss' : List Statement}

/-- Texts in a row. -/
theorem append (h : Consists t ss) (h' : Consists u ss') : Consists (t ++ u) (ss ++ ss') := by
  obtain ⟨ls, hread, hcut⟩ := h
  obtain ⟨ms, hread', hcut'⟩ := h'
  refine ⟨ls ++ ms, hread.append hread', fun done hdone => ?_⟩
  obtain ⟨hls, hrest⟩ := hcut done hdone
  obtain ⟨hms, hrest'⟩ := hcut' _ hrest
  rw [cut_append, List.map_append, hls, hms]
  exact ⟨rfl, hrest'⟩

/-- Spaces and ends of lines consist of no statements. -/
theorem gap {cs : List Char} (h : cs.all isCode = true ∧
    (cs.map codeLexeme).all (fun x => x.isGap && x.isInner) = true) :
    Consists (String.ofList cs) [] := by
  have hread := readAs_code (codeText_ofList (List.all_eq_true.mp h.1))
  rw [String.toList_ofList] at hread
  have hall : ∀ x ∈ cs.map codeLexeme, x.isGap = true ∧ x.isInner = true := fun x hx =>
    Bool.and_eq_true_iff.mp (List.all_eq_true.mp h.2 x hx)
  refine ⟨_, hread, fun done hdone => ?_⟩
  rw [cut_inner fun x hx => (hall x hx).2]
  refine ⟨rfl, fun x hx => ?_⟩
  obtain hx | hx := List.mem_append.mp hx
  · exact hdone x hx
  · exact (hall x hx).1

/-- Texts that belong to the items of a list. -/
theorem flatMap {α : Type} {f : α → String} {g : α → List Statement} {xs : List α}
    (h : ∀ x ∈ xs, Consists (f x) (g x)) :
    Consists ((xs.map f).foldr (· ++ ·) "") (xs.flatMap g) :=
  flatMap_induction (gap (by decide)) append h

/-- The statements of a script are those that it consists of. -/
theorem statementsOf_eq (h : Consists t ss) : statementsOf t = ss := by
  obtain ⟨ls, hread, hcut⟩ := h
  obtain ⟨hparts, hrest⟩ := hcut [] nofun
  rw [statementsOf, hread.lexemes_eq]
  simp only [hparts, List.all_eq_true.mpr hrest]
  exact List.append_nil ss

end Consists

/-! ## Single statements -/

/-- A text that is a statement with its semicolon. -/
def IsStatement (t : String) : Prop :=
  ∃ ls, ReadAs t (ls ++ [.code ';']) ∧ ∀ x ∈ ls, x.isInner = true

/-- What stands inside of a statement, with its end behind it.  A text that is given is known by its
characters. -/
theorem isStatement_append {p q : List Bracket} {t : String} (h : Piece Lexeme.isInner p q t)
    (cs : List Char) (hcs : (cs ++ [';']).all isCode = true ∧
      (cs.map codeLexeme).all Lexeme.isInner = true) :
    IsStatement (t ++ String.ofList (cs ++ [';'])) := by
  obtain ⟨ls, hread, hinner, -⟩ := h
  have hend := readAs_code (codeText_ofList (List.all_eq_true.mp hcs.1))
  rw [String.toList_ofList, List.map_append] at hend
  refine ⟨ls ++ cs.map codeLexeme, ?_, fun x hx => ?_⟩
  · rw [List.append_assoc]
    exact hread.append hend
  · obtain hx | hx := List.mem_append.mp hx
    · exact hinner x hx
    · exact List.all_eq_true.mp hcs.2 x hx

/-- A statement that is known by its symbols. -/
theorem Consists.read {t : String} {ss : List Symbol} {s : Statement} (h : IsStatement t)
    (hyields : Yields [] t ss []) (hs : ∀ value, statement? value ss = some s) :
    Consists t [s] := by
  obtain ⟨ls, hread, hinner⟩ := h
  obtain ⟨ls', hread', hrun⟩ := hyields
  -- a text has only one list of lexemes
  obtain rfl : ls ++ [Lexeme.code ';'] = ls' := hread.lexemes_eq.symm.trans hread'.lexemes_eq
  refine ⟨_, hread, fun done hdone => ?_⟩
  have hsymbols : symbolsOf (done ++ (ls ++ [Lexeme.code ';'])) = ss := by
    rw [symbolsOf, symbolRun_append, symbolRun_gap hdone, hrun]
    simp [endName]
  rw [cut_statement hinner]
  refine ⟨?_, List.forall_mem_nil _⟩
  rw [List.map_singleton, readStatement, hsymbols, hs]
  rfl

/-- Whether a character of code is neither a semicolon nor an equals sign. -/
def isFront (c : Char) : Bool := isCode c && c != ';' && c != '='

/-- What stands in front of an equals sign, without semicolons and other equals signs. -/
theorem exists_readAs_front {front : String} (h : ∀ c ∈ front.toList, isFront c = true) :
    ∃ fs, ReadAs (front ++ " = ") (fs ++ [Lexeme.code '=', .code ' ']) ∧
      ∀ x ∈ fs, x.isInner = true ∧ x ≠ .code '=' := by
  have h : ∀ c ∈ front.toList, isCode c = true ∧ c ≠ ';' ∧ c ≠ '=' := by
    intro c hc
    have hfront := h c hc
    rwa [isFront, Bool.and_eq_true, Bool.and_eq_true, bne_iff_ne, bne_iff_ne, and_assoc] at hfront
  refine ⟨front.toList.map codeLexeme ++ [Lexeme.code ' '], ?_, fun x hx => ?_⟩
  -- the space in front of the equals sign belongs to the front
  · rw [List.append_assoc]
    exact (readAs_code fun c hc => (h c hc).1).append (readAs_code (t := " = ") (by decide))
  · obtain hx | hx := List.mem_append.mp hx
    · obtain ⟨c, hc, rfl⟩ := List.mem_map.mp hx
      obtain ⟨-, hend, hsign⟩ := h c hc
      rw [codeLexeme]
      split
      · exact ⟨rfl, by decide⟩
      · simp [Lexeme.isInner, Lexeme.isPlain, hend, hsign]
    · obtain rfl := List.mem_singleton.mp hx
      exact ⟨rfl, by decide⟩

/-- A constant, whatever its value is. -/
theorem Consists.bound {front value x : String} {ss : List Symbol} {p q : List Bracket}
    (hcode : ∀ c ∈ front.toList, isFront c = true)
    (hyields : Yields [] (front ++ " = ") ss [])
    (hs : ∀ text rest, statement? text (ss ++ rest) = some (.binds x text))
    (hvalue : Piece Lexeme.isInner p q value) :
    Consists (front ++ " = " ++ value ++ ";") [.binds x value] := by
  obtain ⟨fs, hfront, hfs⟩ := exists_readAs_front hcode
  obtain ⟨vs, hread, hvs, -⟩ := hvalue
  have hinner : ∀ x ∈ fs ++ [Lexeme.code '=', .code ' '] ++ vs, x.isInner = true := by
    intro x hx
    simp only [List.mem_append, List.mem_cons, List.not_mem_nil, or_false] at hx
    obtain (hx | rfl | rfl) | hx := hx
    · exact (hfs x hx).1
    · rfl
    · rfl
    · exact hvs x hx
  refine ⟨_, (hfront.append hread).append (readAs_code (t := ";") (by decide)),
    fun done hdone => ?_⟩
  have hvalue :
      valueOf (done ++ (fs ++ [Lexeme.code '=', .code ' '] ++ vs ++ [Lexeme.code ';'])) = vs :=
    valueOf_statement hdone fun x hx => (hfs x hx).2
  -- the value may yield any symbols, since its statement is known by those in front of it
  have hsymbols : ∃ rest,
      symbolsOf (done ++ (fs ++ [Lexeme.code '=', .code ' '] ++ vs ++ [Lexeme.code ';'])) =
        ss ++ rest := by
    obtain ⟨ls, hread', hrun⟩ := hyields
    obtain rfl := hfront.lexemes_eq.symm.trans hread'.lexemes_eq
    rw [symbolsOf, symbolRun_append, symbolRun_gap hdone, List.append_assoc _ vs,
      symbolRun_append, hrun]
    exact ⟨_, List.append_assoc ss _ _⟩
  obtain ⟨rest, hsymbols⟩ := hsymbols
  have hcut := cut_statement hinner done
  have hend : (";".toList.map codeLexeme) = [.code ';'] := rfl
  rw [hend, hcut]
  refine ⟨?_, List.forall_mem_nil _⟩
  rw [List.map_singleton, readStatement, hvalue, hread.textOf_eq, hsymbols, hs]
  rfl

end Promptwright.Script
