import Promptwright.Proofs.Script.Symbols

/-!
# What scripts say about names

A script declares names, exports them, imports them from other scripts, and uses them as values of
keys.  Each of these is a `Clause`, and is found at the keyword that it starts with; a keyword that
stands elsewhere is a clause of its own, so that nothing is passed over.  `clausesOf` lists the
clauses of a script in their order.  String literals and comments have none.

## Key results

- `Says.append`, `Says.quiet`, `Says.flatMap`: what a text says, part by part
- `Says.clausesOf_eq`: the clauses of a script
-/

namespace Promptwright.Script

/-! ## Clauses -/

/-- What a script says about a name, or about where other scripts are. -/
inductive Clause
  /-- A name is declared, by a word that says what it stands for. -/
  | declares (k : Keyword) (name : String)
  | exports (name : String)
  | imports (name : String)
  /-- Another script is referred to, by what stands between the quotes. -/
  | source (body : List Char)
  /-- A name is the value of a key. -/
  | uses (key : Keyword) (name : String)
  /-- A keyword stands where none is expected. -/
  | unread (k : Keyword)
deriving DecidableEq, Repr

namespace Clause

/-- The name that is declared. -/
def declared? : Clause → Option String
  | declares _ x => some x
  | _ => none

/-- The name that is exported. -/
def exported? : Clause → Option String
  | exports x => some x
  | _ => none

/-- The key and the name that is its value. -/
def used? : Clause → Option (Keyword × String)
  | uses k x => some (k, x)
  | _ => none

end Clause

/-- What a keyword says, given what follows it. -/
def Keyword.clause? : Keyword → List Symbol → Option Clause
  | .const, .name x :: _ => some (.declares .const (String.ofList x))
  | .const, .mark '\x7b' :: .name x :: .mark '\x7d' :: .mark '=' :: .keyword .require :: _ =>
    some (.imports (String.ofList x))
  | .declare, .name x :: _ => some (.declares .declare (String.ofList x))
  | .type, .name x :: _ => some (.declares .type (String.ofList x))
  -- said at the word in front of it
  | .type, .mark '\x7b' :: _ => none
  | .exporting, .keyword .const :: .name x :: _ => some (.exports (String.ofList x))
  | .exporting, .keyword .declare :: .name x :: _ => some (.exports (String.ofList x))
  | .exporting, .keyword .type :: .name x :: _ => some (.exports (String.ofList x))
  | .exporting, .mark '\x7b' :: .name x :: .mark '\x7d' :: _ => some (.exports (String.ofList x))
  | .exporting, .keyword .type :: .mark '\x7b' :: .name x :: .mark '\x7d' :: _ =>
    some (.exports (String.ofList x))
  -- said at the word behind it
  | .module, .mark '.' :: .keyword .exports :: .mark '.' :: _ => none
  | .exports, .mark '.' :: .name x :: .mark '=' :: _ => some (.exports (String.ofList x))
  | .importing, .mark '\x7b' :: .name x :: .mark '\x7d' :: _ => some (.imports (String.ofList x))
  | .importing, .keyword .type :: .mark '\x7b' :: .name x :: .mark '\x7d' :: _ =>
    some (.imports (String.ofList x))
  | .require, .mark '(' :: .text body :: .mark ')' :: _ => some (.source body)
  | .source, .text body :: _ => some (.source body)
  | .parameters, .mark ':' :: .name x :: _ => some (.uses .parameters (String.ofList x))
  | .schema, .mark ':' :: .name x :: _ => some (.uses .schema (String.ofList x))
  | k, _ => some (.unread k)

/-- The clauses among some symbols. -/
def clauses : List Symbol → List Clause
  | [] => []
  | .keyword k :: ss => (k.clause? ss).toList ++ clauses ss
  | _ :: ss => clauses ss

/-- The clauses of a script. -/
def clausesOf (script : String) : List Clause := clauses (symbols script)

example : clausesOf "const a = 1; // const b\nexport \x7b a \x7d from \"./c\"; const" =
    [.declares .const "a", .exports "a", .source ['.', '/', 'c'], .unread .const] := by
  decide +kernel

/-! ## What texts say -/

/-- A text that says some things about names, wherever it stands behind a complete symbol. -/
def Says (t : String) (cs : List Clause) : Prop :=
  ∃ ss, Yields [] t ss [] ∧ ∀ rest, clauses (ss ++ rest) = cs ++ clauses rest

/-- Symbols that are no keywords say nothing. -/
theorem clauses_quiet_append {ss : List Symbol} (h : ∀ s ∈ ss, s.isQuiet = true)
    (rest : List Symbol) : clauses (ss ++ rest) = clauses rest := by
  induction ss with
  | nil => rfl
  | cons s ss ih =>
    have hs : s.isQuiet = true := h s List.mem_cons_self
    have ih := ih fun s hs => h s (List.mem_cons_of_mem _ hs)
    cases s with
    | keyword k => cases hs
    | _ => exact ih

namespace Says

variable {t u : String} {cs ds : List Clause}

/-- Texts in a row. -/
theorem append (h : Says t cs) (h' : Says u ds) : Says (t ++ u) (cs ++ ds) := by
  obtain ⟨ss, hyields, hcs⟩ := h
  obtain ⟨ts, hyields', hds⟩ := h'
  refine ⟨ss ++ ts, hyields.append hyields', fun rest => ?_⟩
  rw [List.append_assoc, hcs, hds, List.append_assoc]

/-- A text without keywords. -/
theorem quiet (h : Quiet false false t) : Says t [] := by
  obtain ⟨ss, hyields, hquiet⟩ := h.exists_yields
  exact ⟨ss, hyields, clauses_quiet_append hquiet⟩

/-- Texts that belong to the items of a list. -/
theorem flatMap {α : Type} {f : α → String} {g : α → List Clause} {xs : List α}
    (h : ∀ x ∈ xs, Says (f x) (g x)) : Says ((xs.map f).foldr (· ++ ·) "") (xs.flatMap g) :=
  flatMap_induction (quiet .empty) append h

/-- The clauses of a script are what its text says. -/
theorem clausesOf_eq (h : Says t cs) : clausesOf t = cs := by
  obtain ⟨ss, hyields, hcs⟩ := h
  have hrest := hcs []
  rwa [List.append_nil, clauses, List.append_nil, ← hyields.symbols_eq] at hrest

end Says

/-! ## Names -/

/-- A name that is no keyword. -/
structure PlainName (x : String) : Prop where
  chars : NameText x
  ne : x ≠ ""
  plain : Keyword.ofChars? x.toList = none

/-- A name that is no keyword is one symbol. -/
theorem PlainName.endName_eq {x : String} (h : PlainName x) (ss : List Symbol) :
    endName x.toList ss = .name x.toList :: ss := by
  have hne : x.toList ≠ [] := fun hnil => h.ne (String.toList_eq_nil_iff.mp hnil)
  rw [endName, if_neg hne, nameSymbol, h.plain]

/-- A name with code on both sides. -/
theorem PlainName.yields {x start : String} {ss : List Symbol} (h : PlainName x)
    (hstart : Yields [] start ss []) {c : Char} {cs : List Char} {ts : List Symbol}
    (hc : isNamePart c = false) (hcode : (c :: cs).all isCode = true)
    (hrun : symbolRun [] ((c :: cs).map codeLexeme) = (ts, [])) :
    Yields [] (start ++ x ++ String.ofList (c :: cs)) (ss ++ Symbol.name x.toList :: ts) [] := by
  have hname := hstart.append (Yields.name h.chars [])
  rw [List.append_nil, List.nil_append] at hname
  rw [← h.endName_eq]
  exact hname.append (.behind hc hcode hrun)

/-- Every keyword is in lower case. -/
theorem ofChars?_eq_none {cs : List Char} {c : Char} (hc : c ∈ cs) (hlower : c.isLower = false) :
    Keyword.ofChars? cs = none := by
  have hall : ∀ e ∈ Keyword.spellings, e.1.all Char.isLower = true := by decide
  rw [Keyword.ofChars?, List.lookup_eq_none_iff]
  intro e he
  have hne : cs ≠ e.1 := by
    rintro rfl
    have h := List.all_eq_true.mp (hall e he) c hc
    rw [hlower] at h
    contradiction
  simpa using hne

/-- A name with a character that is no lower-case letter. -/
theorem plainName_of_mem {x : String} (h : NameText x) {c : Char} (hc : c ∈ x.toList)
    (hlower : c.isLower = false) : PlainName x := by
  refine ⟨h, ?_, ofChars?_eq_none hc hlower⟩
  rintro rfl
  cases hc

end Promptwright.Script
