import Promptwright.Proofs.Binary64.Rounding
import Promptwright.Proofs.Json.NumberText
import Promptwright.Proofs.Script.Pieces
import Promptwright.Proofs.Script.StringValue

/-!
# The values of expressions

`evaluate` gives the value of an expression that is made of arrays, objects, strings, numbers, truth
values and `null`, as scripts evaluate it.  It goes over the lexemes of the expression once and
keeps the arrays and objects that are open.  An expression of any other kind has no value here.

Object literals are where scripts and JSON part.  An entry with the name `__proto__` adds no
property to the object but sets its prototype, and a second such entry is an error.  Of other
entries with one name the last one counts.

## Key results

- `Leads.append`: expressions are evaluated part by part
- `Denotes.evaluate_eq`: a text that denotes a value wherever it stands has this value
- `Denotes.word`, `Denotes.literal`: words and string literals
- `units_injective`: different texts have different code units
-/

namespace Promptwright.Script

/-! ## Data -/

/-- A value of an expression.  Strings and names of properties are lists of UTF-16 code units, and
an object is known by the properties of its own, in the order in which they were added. -/
inductive Data
  | null
  | bool (b : Bool)
  | number (x : Binary64)
  | string (units : List Nat)
  | array (items : List Data)
  | object (own : List (List Nat × Data))

/-- The code units of a text. -/
def units (text : String) : List Nat := text.toList.flatMap fun c => codeUnits c.toNat

/-! ## Words -/

/-- Digits that may stand before a point: there is a zero in front only if it is the only digit. -/
def isWhole : List Char → Bool
  | [] => false
  | c :: cs => (c :: cs).all Char.isDigit && (c != '0' || cs.isEmpty)

/-- The end of a numeral: nothing, or an exponent with its sign. -/
def isExponent : List Char → Bool
  | [] => true
  | 'e' :: sign :: ds => (sign == '-' || sign == '+') && !ds.isEmpty && ds.all Char.isDigit
  | _ => false

/-- What follows the first digits of a numeral: a point and more digits, or no point. -/
def isFraction : List Char → Bool
  | '.' :: cs => !(cs.takeWhile Char.isDigit).isEmpty && isExponent (cs.dropWhile Char.isDigit)
  | cs => isExponent cs

/-- Whether a text is a decimal numeral without a sign. -/
def isDecimal (cs : List Char) : Bool :=
  isWhole (cs.takeWhile Char.isDigit) && isFraction (cs.dropWhile Char.isDigit)

/-- The number that a decimal numeral stands for: the one nearest to it. -/
def numeral? (cs : List Char) : Option Binary64 :=
  if isDecimal cs then some (Binary64.nearestTo false (Decimal.read cs)) else none

/-- The value of a word.  A minus is the operator that changes the sign. -/
def word? (w : List Char) : Option Data :=
  if w = ['n', 'u', 'l', 'l'] then some .null
  else if w = ['t', 'r', 'u', 'e'] then some (.bool true)
  else if w = ['f', 'a', 'l', 's', 'e'] then some (.bool false)
  else
    match w with
    | '-' :: cs => (numeral? cs).map fun x => .number x.neg
    | cs => (numeral? cs).map .number

/-! ## Objects -/

/-- An object literal as far as it has been read. -/
structure Draft where
  own : List (List Nat × Data)
  hasPrototype : Bool

/-- Sets a property: in its place if there is one with the name, else at the end. -/
def setOwn (name : List Nat) (v : Data) : List (List Nat × Data) → List (List Nat × Data)
  | [] => [(name, v)]
  | (n, w) :: own => if n = name then (n, v) :: own else (n, w) :: setOwn name v own

/-- The name of the entries that set a prototype. -/
def prototypeName : String := "__proto__"

/-- Adds an entry to an object.  A prototype is no property, and it can be set only once. -/
def Draft.add (d : Draft) (entry : List Nat × Data) : Option Draft :=
  if entry.1 = units prototypeName then
    if d.hasPrototype then none else some { d with hasPrototype := true }
  else some { d with own := setOwn entry.1 entry.2 d.own }

/-! ## Expressions -/

/-- An array or an object that is open, with what has been read of it. -/
inductive Frame
  | array (items : List Data)
  /-- An object whose last entry has its name already, but no value yet. -/
  | entry (draft : Draft) (name : List Nat)

/-- How far an expression has been read, within which arrays and objects. -/
inductive Stage
  /-- A value has to come, or the end of the innermost array. -/
  | start (frames : List Frame)
  | word (text : List Char) (frames : List Frame)
  | value (v : Data) (frames : List Frame)
  /-- The name of an entry has to come, or the end of the object. -/
  | member (draft : Draft) (frames : List Frame)
  | named (name : List Nat) (draft : Draft) (frames : List Frame)

namespace Stage

/-- Where a word ends, it is a value. -/
def settle : Stage → Option Stage
  | .word text frames => (word? text).map fun v => .value v frames
  | s => some s

/-- Reads a character of a word. -/
def letter : Stage → Char → Option Stage
  | .start frames, c => some (.word [c] frames)
  | .word text frames, c => some (.word (text ++ [c]) frames)
  | _, _ => none

/-- Reads a string, which is a value or the name of an entry. -/
def string : Stage → List Nat → Option Stage
  | .start frames, us => some (.value (.string us) frames)
  | .member draft frames, us => some (.named us draft frames)
  | _, _ => none

/-- Reads a character that belongs to no word. -/
def mark : Stage → Char → Option Stage
  | .start frames, '[' => some (.start (.array [] :: frames))
  | .start (.array items :: frames), ']' => some (.value (.array items) frames)
  | .value v (.array items :: frames), ',' => some (.start (.array (items ++ [v]) :: frames))
  | .value v (.array items :: frames), ']' => some (.value (.array (items ++ [v])) frames)
  | .start frames, '{' => some (.member ⟨[], false⟩ frames)
  | .member draft frames, '}' => some (.value (.object draft.own) frames)
  | .named name draft frames, ':' => some (.start (.entry draft name :: frames))
  | .value v (.entry draft name :: frames), ',' => (draft.add (name, v)).map (.member · frames)
  | .value v (.entry draft name :: frames), '}' =>
    (draft.add (name, v)).map fun draft => .value (.object draft.own) frames
  | _, _ => none

/-- Reads a lexeme.  Comments and template literals are left out. -/
def step (s : Stage) : Lexeme → Option Stage
  | .code c =>
    if isWord c then s.letter c
    else s.settle.bind fun s => if c = ' ' ∨ c = '\t' then some s else s.mark c
  | .literal _ body => s.settle.bind fun s => (stringUnits body).bind s.string
  | .lineEnd => s.settle
  | _ => none

theorem step_code (s : Stage) (c : Char) : s.step (.code c) =
    if isWord c then s.letter c
    else s.settle.bind fun s => if c = ' ' ∨ c = '\t' then some s else s.mark c := rfl

theorem step_literal (s : Stage) (single : Bool) (body : List Char) :
    s.step (.literal single body) = s.settle.bind fun s => (stringUnits body).bind s.string := rfl

theorem step_lineEnd (s : Stage) : s.step .lineEnd = s.settle := rfl

/-- The value of an expression that ends here. -/
def finish (s : Stage) : Option Data :=
  s.settle.bind fun
    | .value v [] => some v
    | _ => none

end Stage

/-- The value of an expression. -/
def evaluate (text : String) : Option Data :=
  ((lexemes text).foldlM Stage.step (.start [])).bind Stage.finish

example : evaluate "[null, \x7b'a': true, \"a\": -2, \"__proto__\": []\x7d]" =
    some (.array [.null, .object [([97], .number (Binary64.ofInt (-2)))]]) := by
  rfl

example : evaluate "\x7b\"__proto__\": 1, \"__proto__\": 2\x7d" = none := by rfl

/-! ## Part by part -/

variable {s s' s'' : Stage} {t u : String} {v : Data}

/-- A text that leads from one stage to another one, whatever follows it. -/
def Leads (s : Stage) (t : String) (s' : Stage) : Prop :=
  ∃ ls, ReadAs t ls ∧ ls.foldlM Stage.step s = some s'

/-- Texts in a row. -/
theorem Leads.append (h : Leads s t s') (h' : Leads s' u s'') : Leads s (t ++ u) s'' := by
  obtain ⟨ls, hread, hrun⟩ := h
  obtain ⟨ms, hread', hrun'⟩ := h'
  refine ⟨ls ++ ms, hread.append hread', ?_⟩
  rw [List.foldlM_append, hrun]
  exact hrun'

/-- Nothing leads nowhere. -/
theorem Leads.empty (s : Stage) : Leads s "" s := ⟨[], fun _ => rfl, rfl⟩

/-- Code that is given. -/
theorem Leads.code {cs : List Char} (hcode : cs.all isCode = true)
    (hrun : (cs.map codeLexeme).foldlM Stage.step s = some s') : Leads s (String.ofList cs) s' := by
  refine ⟨_, readAs_code (codeText_ofList (List.all_eq_true.mp hcode)), ?_⟩
  rwa [String.toList_ofList]

/-- A word ends only once. -/
theorem settle_of_settle (h : s.settle = some s') : s'.settle = some s' := by
  cases s with
  | word text frames =>
    obtain ⟨v, -, rfl⟩ := Option.map_eq_some_iff.mp h
    rfl
  | _ =>
    obtain rfl := Option.some.inj h
    rfl

/-- Where a character follows that belongs to no word, the last word is a value. -/
theorem step_of_settle {c : Char} (h : s.settle = some s') (hc : isWord c = false) :
    s.step (codeLexeme c) = s'.step (codeLexeme c) := by
  have hword : ¬isWord c = true := by simp [hc]
  rw [codeLexeme]
  split
  · rw [Stage.step_lineEnd, Stage.step_lineEnd, h, settle_of_settle h]
  · rw [Stage.step_code, Stage.step_code, if_neg hword, if_neg hword, h, settle_of_settle h]

/-- Given code behind a word or a value. -/
theorem Leads.behind {c : Char} {cs : List Char} (h : s.settle = some s')
    (hcode : isWord c = false ∧ (c :: cs).all isCode = true)
    (hrun : ((c :: cs).map codeLexeme).foldlM Stage.step s' = some s'') :
    Leads s (String.ofList (c :: cs)) s'' := by
  refine .code hcode.2 ?_
  rw [List.map_cons, List.foldlM_cons] at hrun ⊢
  rwa [step_of_settle h hcode.1]

/-- Spaces change nothing where no word ends. -/
theorem foldlM_step_spaces (h : s.settle = some s) (n : Nat) :
    ((List.replicate n ' ').map codeLexeme).foldlM Stage.step s = some s := by
  induction n with
  | zero => rfl
  | succ n ih =>
    have hspace : s.step (codeLexeme ' ') = some s := by
      show s.settle.bind _ = some s
      rw [h]
      rfl
    rw [List.replicate_succ, List.map_cons, List.foldlM_cons, hspace]
    exact ih

/-- A new line ends a word. -/
theorem leads_newline (h : s.settle = some s') (depth : Nat) :
    Leads s (Json.newline depth) s' := by
  have hline : Leads s (String.ofList ['\n']) s' := by
    refine .code (by decide) ?_
    show s.settle >>= some = some s'
    rw [h]
    rfl
  refine hline.append (.code ?_ ?_)
  · simp [isCode]
  · exact foldlM_step_spaces (settle_of_settle h) _

/-! ## Values -/

/-- A text that is a value where one has to come, in whichever arrays and objects. -/
def Denotes (t : String) (v : Data) : Prop :=
  ∀ frames, ∃ s, Leads (.start frames) t s ∧ s.settle = some (.value v frames)

/-- An expression has the value that it denotes. -/
theorem Denotes.evaluate_eq (h : Denotes t v) : evaluate t = some v := by
  obtain ⟨s, ⟨ls, hread, hrun⟩, hsettle⟩ := h []
  rw [evaluate, hread.lexemes_eq, hrun]
  show s.settle.bind _ = some v
  rw [hsettle]
  rfl

/-- The characters of a word. -/
theorem foldlM_step_word {w : List Char} (h : ∀ c ∈ w, isWord c = true) (text : List Char)
    (frames : List Frame) : (w.map codeLexeme).foldlM Stage.step (.word text frames) =
      some (.word (text ++ w) frames) := by
  induction w generalizing text with
  | nil => rw [List.append_nil]; rfl
  | cons c w ih =>
    have hc : isWord c = true := h c List.mem_cons_self
    have hstep : Stage.step (.word text frames) (codeLexeme c) =
        some (.word (text ++ [c]) frames) := by
      rw [codeLexeme, if_neg (ne_of_isWord hc (by decide))]
      exact if_pos hc
    rw [List.map_cons, List.foldlM_cons, hstep]
    show (w.map codeLexeme).foldlM Stage.step _ = _
    rw [ih (fun c hc => h c (List.mem_cons_of_mem _ hc)), List.append_assoc]
    rfl

/-- A word denotes its value. -/
theorem Denotes.word (ht : WordText t) (h : word? t.toList = some v) : Denotes t v := by
  intro frames
  obtain ⟨c, w, hw⟩ : ∃ c w, t.toList = c :: w := by
    cases hw : t.toList with
    | nil => rw [hw] at h; cases h
    | cons c w => exact ⟨c, w, rfl⟩
  have hcw : ∀ d ∈ c :: w, isWord d = true := hw ▸ ht
  have hstep : Stage.step (.start frames) (codeLexeme c) = some (.word [c] frames) := by
    rw [codeLexeme, if_neg (ne_of_isWord (hcw c List.mem_cons_self) (by decide))]
    exact if_pos (hcw c List.mem_cons_self)
  refine ⟨.word t.toList frames, ⟨_, readAs_code ht.codeText, ?_⟩, ?_⟩
  · rw [hw, List.map_cons, List.foldlM_cons, hstep]
    exact foldlM_step_word (fun d hd => hcw d (List.mem_cons_of_mem _ hd)) [c] frames
  · show (word? t.toList).map _ = _
    rw [h]
    rfl

/-! ## Strings -/

/-- A hexadecimal digit in lower case is one in either case. -/
theorem hexDigit?_of_hexValue {c : Char} {i : Nat} (h : hexValue c = some i) :
    hexDigit? c = some i := by
  have hall : ∀ j : Fin 16, (Nat.digitChar j.val).toLower = Nat.digitChar j.val := by decide
  obtain ⟨hc, hi⟩ : Nat.digitChar i = c ∧ i < 16 := by
    have hfound := List.find?_some h
    have hmem := List.mem_of_find?_eq_some h
    exact ⟨by simpa using hfound, List.mem_range.mp hmem⟩
  rw [hexDigit?, ← hc, hall ⟨i, hi⟩, hc, h]

/-- A character that completes no code unit. -/
theorem unitsFrom_of_step {e e' : Escape} {c : Char} (h : e.step c = some ([], e'))
    (cs : List Char) : unitsFrom e (c :: cs) = unitsFrom e' cs := by
  rw [unitsFrom, h]
  exact Option.map_id'

/-- A digit of an escape sequence for a code unit. -/
theorem step_hex {c : Char} {i : Nat} (h : hexValue c = some i) (left value : Nat) :
    Escape.step (.hex left value) c = some (if left ≤ 1 then ([16 * value + i], .none)
      else ([], .hex (left - 1) (16 * value + i))) := by
  rw [Escape.step, hexDigit?_of_hexValue h]
  rfl

/-- A literal is read as the code units of the text that it spells. -/
theorem Spells.stringUnits_eq {b cs : List Char} (h : Spells b cs) :
    stringUnits b = some (cs.flatMap fun c => codeUnits c.toNat) := by
  rw [stringUnits]
  have hback : Escape.step .none '\\' = some ([], .backslash) := rfl
  induction h with
  | nil => rfl
  | @plain c t s hq hb hn hr _ ih =>
    have hstep : Escape.stepPlain c = some (codeUnits c.toNat, .none) := by
      rw [Escape.stepPlain, if_neg hb, if_neg (by simp [hn, hr])]
    rw [unitsFrom, Escape.step, hstep, Option.bind_some, ih]
    rfl
  | @escape e c t s he _ ih =>
    have hstep : Escape.stepBackslash e = (codeUnits c.toNat, .none) := by
      unfold escaped at he
      split at he <;> cases he <;> decide
    rw [unitsFrom_of_step hback, unitsFrom, Escape.step, hstep, Option.bind_some, ih]
    rfl
  | @unicode a b c d x i j k l t s ha hb hc hd hx _ ih =>
    have hlt : ∀ {c : Char} {i : Nat}, hexValue c = some i → i < 16 := fun h =>
      List.mem_range.mp (List.mem_of_find?_eq_some h)
    have hunits : codeUnits x.toNat = [16 * (16 * (16 * i + j) + k) + l] := by
      have := hlt ha
      have := hlt hb
      have := hlt hc
      have := hlt hd
      rw [codeUnits, if_pos (by omega), hx]
      congr 1
      omega
    have hunicode : Escape.step .backslash 'u' = some ([], .unicode) := rfl
    have hfirst : Escape.step .unicode a = some ([], .hex 3 i) := by
      -- a brace would start a code point
      have hopen : a ≠ '\x7b' := by
        rintro rfl
        cases ha
      rw [Escape.step, if_neg hopen, hexDigit?_of_hexValue ha]
      rfl
    rw [unitsFrom_of_step hback, unitsFrom_of_step hunicode, unitsFrom_of_step hfirst,
      unitsFrom_of_step (step_hex hb _ _), unitsFrom_of_step (step_hex hc _ _), unitsFrom,
      step_hex hd, Option.bind_some, List.flatMap_cons, hunits]
    simp [ih]

/-- A string literal is read as the text that it stands for. -/
theorem exists_step_literal {text : String} (h : Literal t text) :
    ∃ b, ReadAs t [.literal false b] ∧ ∀ s : Stage,
      s.step (.literal false b) = s.settle.bind fun s => s.string (units text) := by
  obtain ⟨b, ht, hspells⟩ := h
  refine ⟨b, readAs_literal hspells.body.1 hspells.body.2 ht, fun s => ?_⟩
  rw [Stage.step_literal, hspells.stringUnits_eq]
  rfl

/-- A string literal denotes the text that it stands for. -/
theorem Denotes.literal {text : String} (h : Literal t text) :
    Denotes t (.string (units text)) := by
  intro frames
  obtain ⟨b, hread, hstep⟩ := exists_step_literal h
  refine ⟨.value (.string (units text)) frames, ⟨_, hread, ?_⟩, rfl⟩
  rw [List.foldlM_cons, hstep]
  rfl

/-- A string literal is the name of an entry. -/
theorem leads_name {text : String} (h : Literal t text) (draft : Draft) (frames : List Frame) :
    Leads (.member draft frames) t (.named (units text) draft frames) := by
  obtain ⟨b, hread, hstep⟩ := exists_step_literal h
  refine ⟨_, hread, ?_⟩
  rw [List.foldlM_cons, hstep]
  rfl

/-! ## Code units -/

/-- The code units of a character tell the character, whatever follows them. -/
theorem codeUnits_append_injective {c d : Char} {us vs : List Nat}
    (h : codeUnits c.toNat ++ us = codeUnits d.toNat ++ vs) : c = d ∧ us = vs := by
  have hvalid : ∀ c : Char, (c.toNat < 0xd800 ∨ 0xdfff < c.toNat) ∧ c.toNat < 0x110000 := by
    intro c
    obtain hc | hc := c.valid
    · exact ⟨.inl hc, by show c.toNat < _; exact Nat.lt_trans hc (by decide)⟩
    · exact ⟨.inr hc.1, hc.2⟩
  have hc := hvalid c
  have hd := hvalid d
  rw [← Char.toNat_inj]
  unfold codeUnits at h
  split at h <;> split at h <;>
    simp only [List.cons_append, List.nil_append, List.cons.injEq] at h
  · exact h
  -- a code point that needs no pair is no half of one
  · omega
  · omega
  · exact ⟨by omega, h.2.2⟩

/-- Different texts have different code units. -/
theorem units_injective : Function.Injective units := by
  intro t u h
  rw [← String.toList_inj]
  unfold units at h
  generalize t.toList = cs, u.toList = ds at h ⊢
  -- every character has a code unit at least
  have hne : ∀ (c : Char) (us : List Nat), codeUnits c.toNat ++ us ≠ [] := by
    intro c us
    unfold codeUnits
    split <;> simp
  induction cs generalizing ds with
  | nil =>
    cases ds with
    | nil => rfl
    | cons d ds => exact absurd h.symm (hne d _)
  | cons c cs ih =>
    cases ds with
    | nil => exact absurd h (hne c _)
    | cons d ds =>
      obtain ⟨rfl, hrest⟩ := codeUnits_append_injective h
      rw [ih ds hrest]

end Promptwright.Script
