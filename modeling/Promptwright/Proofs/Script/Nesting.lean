import Promptwright.Proofs.Outcome
import Promptwright.Proofs.Script.Rendering

/-!
# Open brackets along a line

What the tokens of a line do to the open brackets does not depend on how literals are quoted, on
white space at the end of the line, or on which numbers the lines have.  The depth depends on the
numbers only through which of them are equal.

## Key results

- `nest_map_normalize`: normalized tokens open and close the same brackets
- `lex_append_blank`: white space behind a line is read behind its tokens
- `nest_lex_trim`, `mode_lex_trim`: white space at the ends of a line changes neither the brackets
  nor the mode
- `step_eq_ok`: what a token can do to the open brackets
- `agree_nest_relabel`, `Renumbered.nest`: other line numbers, the same brackets
- `depth_relabel`: numbers that differ where they differed give the same depth
-/

namespace Promptwright.Script

/-- The open brackets after the tokens of a line. -/
abbrev nest (line : Nat) (stack : List Open) (ts : List Token) : Except Fault (List Open) :=
  ts.foldlM (step line) stack

/-! ## Quotes -/

/-- A literal opens no bracket, however it is quoted. -/
@[simp] theorem step_normalize (line : Nat) (stack : List Open) (t : Token) :
    step line stack (normalize t) = step line stack t := by
  by_cases h : ∃ b, t = .literal true b ∧ ¬ b.contains '"' = true
  · obtain ⟨b, rfl, hb⟩ := h
    rw [normalize_single_of_not_contains hb]
    rfl
  · rw [normalize_eq_self_of fun b e => h ⟨b, e⟩]

/-- Normalized tokens open and close the same brackets. -/
theorem nest_map_normalize (line : Nat) (stack : List Open) (ts : List Token) :
    nest line stack (ts.map normalize) = nest line stack ts := by
  rw [nest, List.foldlM_map]
  simp only [step_normalize]

/-- Normalized tokens start with the same closing brackets. -/
theorem leadingClosers_map_normalize (ts : List Token) :
    leadingClosers (ts.map normalize) = leadingClosers ts := by
  induction ts with
  | nil => rfl
  | cons t ts ih =>
    rw [List.map_cons]
    cases t with
    | closing b => exact congrArg (· + 1) ih
    | char c =>
      show (if Text.isBlank c then _ else 0) = if Text.isBlank c then _ else 0
      rw [ih]
    | literal single b =>
      -- a literal changes its quotes or stays as it is, and closes nothing in either case
      by_cases h : ∃ b', Token.literal single b = .literal true b' ∧ ¬ b'.contains '"' = true
      · obtain ⟨b', h, hb⟩ := h
        rw [h, normalize_single_of_not_contains hb]
        rfl
      · rw [normalize_eq_self_of fun b e => h ⟨b, e⟩]
        rfl
    | opening b => rfl
    | unclosed single b => rfl
    | lineComment text => rfl
    | comment text => rfl
    | template text => rfl

/-! ## White space at the end of a line -/

/-- White space is no delimiter. -/
theorem ne_of_isBlank {c d : Char} (hc : Text.isBlank c = true) (hd : Text.isBlank d = false) :
    c ≠ d := by
  rintro rfl
  rw [hc] at hd
  contradiction

/-- White space is no bracket. -/
theorem codeToken_of_isBlank {c : Char} (hc : Text.isBlank c = true) : codeToken c = .char c := by
  have ho : Bracket.ofOpening? c = none := by
    rw [Bracket.ofOpening?, if_neg (ne_of_isBlank hc (by decide)),
      if_neg (ne_of_isBlank hc (by decide)), if_neg (ne_of_isBlank hc (by decide))]
  have hcl : Bracket.ofClosing? c = none := by
    rw [Bracket.ofClosing?, if_neg (ne_of_isBlank hc (by decide)),
      if_neg (ne_of_isBlank hc (by decide)), if_neg (ne_of_isBlank hc (by decide))]
  simp only [codeToken, ho, hcl]

/-- White space may be read on its own. -/
theorem plainCode_of_isBlank {c : Char} (hc : Text.isBlank c = true) (cs : List Char) :
    PlainCode c cs :=
  ⟨ne_of_isBlank hc (by decide), ne_of_isBlank hc (by decide), ne_of_isBlank hc (by decide),
    fun e => absurd e (ne_of_isBlank hc (by decide))⟩

/-- A white space character as it is read in a mode. -/
def blankToken (c : Char) : Mode → Token
  | .code => .char c
  | .comment => .comment [c]
  | .template => .template [c]

/-- White space in front of a line is read character by character. -/
theorem lex_blank_append (mode : Mode) {ws : List Char} (h : ∀ c ∈ ws, Text.isBlank c = true)
    (cs : List Char) :
    lex mode (ws ++ cs) =
      (ws.map (blankToken · mode) ++ (lex mode cs).1, (lex mode cs).2) := by
  induction ws with
  | nil => rfl
  | cons c ws ih =>
    have hc := h c List.mem_cons_self
    have ih := ih fun d hd => h d (List.mem_cons_of_mem c hd)
    rw [List.cons_append]
    -- a blank starts no comment, no literal and no escape in any of the modes
    cases mode with
    | code =>
      rw [lex_code_cons (plainCode_of_isBlank hc _), codeToken_of_isBlank hc, ih]
      rfl
    | comment =>
      rw [lex_comment_cons fun e => absurd e (ne_of_isBlank hc (by decide)), ih]
      rfl
    | template =>
      rw [lex_template_cons (ne_of_isBlank hc (by decide))
        fun e => absurd e (ne_of_isBlank hc (by decide)), ih]
      rfl

/-- White space opens and closes nothing. -/
theorem nest_map_blankToken (line : Nat) (stack : List Open) (mode : Mode) (ws : List Char) :
    nest line stack (ws.map (blankToken · mode)) = .ok stack := by
  induction ws with
  | nil => rfl
  | cons c ws ih =>
    have hstep : step line stack (blankToken c mode) = .ok stack := by cases mode <;> rfl
    rw [List.map_cons, nest, List.foldlM_cons, hstep]
    exact ih

/-- White space behind a line does not start with a delimiter. -/
theorem head?_append_blank_ne {cs ws : List Char} {d : Char} (h : cs.head? ≠ some d)
    (hws : ∀ c ∈ ws, Text.isBlank c = true) (hd : Text.isBlank d = false) :
    (cs ++ ws).head? ≠ some d := by
  cases cs with
  | cons c cs => exact h
  | nil =>
    intro hw
    exact ne_of_isBlank (hws d (List.mem_of_mem_head? hw)) hd rfl

/-- What is read of a line, and the tokens of the line with some white space behind it. -/
inductive Trailed (ws : List Char) : List Token × Mode → List Token → Prop
  | blank (mode : Mode) : Trailed ws ([], mode) (ws.map (blankToken · mode))
  | lineComment (text : List Char) : Trailed ws ([.lineComment text], .code) [.lineComment (text ++ ws)]
  /-- The white space goes into the literal. -/
  | unclosed (single : Bool) (b : List Char) :
      Trailed ws ([.unclosed single b], .code) [.unclosed single (b ++ ws)]
  /-- A backslash at the end takes the first character with it. -/
  | templatePair (w : Char) {vs : List Char} (hws : ws = w :: vs) :
      Trailed ws ([.template ['\\']], .template)
        (.template ['\\', w] :: vs.map (blankToken · .template))
  | push (t : Token) {r : List Token × Mode} {ts : List Token} (h : Trailed ws r ts) :
      Trailed ws (push t r) (t :: ts)

/-- White space at the end of a line does not change the mode, and is read behind the tokens. -/
theorem lex_append_blank (mode : Mode) (cs : List Char) {ws : List Char}
    (hws : ∀ c ∈ ws, Text.isBlank c = true) :
    (lex mode (cs ++ ws)).2 = (lex mode cs).2 ∧
      Trailed ws (lex mode cs) (lex mode (cs ++ ws)).1 := by
  induction mode, cs using lex_induction with
  | nil mode =>
    -- only the blanks are left to read
    have hblank := lex_blank_append mode hws []
    rw [List.append_nil, lex, List.append_nil] at hblank
    rw [List.nil_append, hblank, lex]
    exact ⟨rfl, .blank mode⟩
  | commentEnd cs ih =>
    rw [List.cons_append, List.cons_append, lex, lex]
    exact ⟨ih.1, .push _ ih.2⟩
  | commentChar c cs h ih =>
    -- a star before the blanks is not followed by a slash
    rw [List.cons_append, lex_comment_cons h,
      lex_comment_cons fun e => head?_append_blank_ne (h e) hws (by decide)]
    exact ⟨ih.1, .push _ ih.2⟩
  | templatePair c cs ih =>
    rw [List.cons_append, List.cons_append, lex, lex]
    exact ⟨ih.1, .push _ ih.2⟩
  | templateEnd cs ih =>
    rw [List.cons_append, lex, lex]
    exact ⟨ih.1, .push _ ih.2⟩
  | templateChar c cs ht h ih =>
    by_cases hc : c = '\\'
    · obtain rfl := h hc
      subst hc
      rw [lex_template_cons ht fun _ => rfl, lex, List.cons_append, List.nil_append]
      cases ws with
      | nil =>
        rw [lex_template_cons ht fun _ => rfl, lex]
        exact ⟨rfl, .push _ (.blank .template)⟩
      | cons w vs =>
        have hblank := lex_blank_append .template (fun c hc => hws c (List.mem_cons_of_mem w hc)) []
        rw [List.append_nil, lex, List.append_nil] at hblank
        rw [lex, hblank]
        exact ⟨rfl, .templatePair w rfl⟩
    · rw [List.cons_append, lex_template_cons ht h, lex_template_cons ht fun e => absurd e hc]
      exact ⟨ih.1, .push _ ih.2⟩
  | lineComment cs =>
    rw [List.cons_append, List.cons_append, lex, lex]
    exact ⟨rfl, .lineComment _⟩
  | commentStart cs ih =>
    rw [List.cons_append, List.cons_append, lex, lex]
    exact ⟨ih.1, .push _ ih.2⟩
  | literal single b cs hb ih =>
    rw [List.cons_append, List.append_assoc, List.cons_append, lex_literal hb, lex_literal hb]
    exact ⟨ih.1, .push _ ih.2⟩
  | unclosed single b hb =>
    rw [List.cons_append, lex_unclosed hb,
      lex_unclosed (hb.append_blank (by cases single <;> decide) hws)]
    exact ⟨rfl, .unclosed single b⟩
  | templateStart cs ih =>
    rw [List.cons_append, lex, lex]
    exact ⟨ih.1, .push _ ih.2⟩
  | codeChar c cs h ih =>
    rw [List.cons_append, lex_code_cons h, lex_code_cons]
    · exact ⟨ih.1, .push _ ih.2⟩
    · refine ⟨h.ne_single, h.ne_double, h.ne_tick, fun e => ?_⟩
      exact ⟨head?_append_blank_ne (h.slash e).1 hws (by decide),
        head?_append_blank_ne (h.slash e).2 hws (by decide)⟩

/-- White space behind a line opens and closes nothing. -/
theorem Trailed.nest_eq {ws : List Char} {r : List Token × Mode} {ts : List Token}
    (h : Trailed ws r ts) (line : Nat) (stack : List Open) :
    nest line stack ts = nest line stack r.1 := by
  induction h generalizing stack with
  | blank mode => exact nest_map_blankToken line stack mode ws
  | lineComment text => rfl
  | unclosed single b => rfl
  | templatePair w hws => exact nest_map_blankToken line stack .template _
  | push t _ ih =>
    simp only [nest, Script.push, List.foldlM_cons]
    exact congrArg _ (funext ih)

/-- White space at the end of a line does not change the mode after it. -/
theorem mode_lex_trimEnd (mode : Mode) (cs : List Char) :
    (lex mode (Text.trimEnd cs)).2 = (lex mode cs).2 := by
  obtain ⟨ws, hcs, hws⟩ := Text.eq_trimEnd_append cs
  rw [← (lex_append_blank mode _ hws).1, ← hcs]

/-- White space at the end of a line does not change the brackets after it. -/
theorem nest_lex_trimEnd (mode : Mode) (cs : List Char) (line : Nat) (stack : List Open) :
    nest line stack (lex mode (Text.trimEnd cs)).1 = nest line stack (lex mode cs).1 := by
  obtain ⟨ws, hcs, hws⟩ := Text.eq_trimEnd_append cs
  rw [← (lex_append_blank mode _ hws).2.nest_eq, ← hcs]

/-- White space in front of a line does not change the brackets after it. -/
theorem nest_lex_blank_append (mode : Mode) {ws : List Char} (h : ∀ c ∈ ws, Text.isBlank c = true)
    (cs : List Char) (line : Nat) (stack : List Open) :
    nest line stack (lex mode (ws ++ cs)).1 = nest line stack (lex mode cs).1 := by
  rw [lex_blank_append mode h, nest, List.foldlM_append]
  show (nest line stack (ws.map (blankToken · mode)) >>= _) = _
  rw [nest_map_blankToken]
  rfl

/-- White space at the ends of a line does not change the mode after it. -/
theorem mode_lex_trim (mode : Mode) (cs : List Char) :
    (lex mode (Text.trim cs)).2 = (lex mode cs).2 := by
  rw [Text.trim, mode_lex_trimEnd]
  conv => rhs; rw [← List.takeWhile_append_dropWhile (p := Text.isBlank) (l := cs)]
  rw [lex_blank_append mode fun c hc => List.all_eq_true.mp List.all_takeWhile c hc]
  rfl

/-- White space at the ends of a line does not change the brackets after it. -/
theorem nest_lex_trim (mode : Mode) (cs : List Char) (line : Nat) (stack : List Open) :
    nest line stack (lex mode (Text.trim cs)).1 = nest line stack (lex mode cs).1 := by
  rw [Text.trim, nest_lex_trimEnd]
  conv => rhs; rw [← List.takeWhile_append_dropWhile (p := Text.isBlank) (l := cs)]
  rw [nest_lex_blank_append mode fun c hc => List.all_eq_true.mp List.all_takeWhile c hc]
  rfl

/-! ## One token -/

/-- A token that is accepted opens a bracket, closes the innermost one, or leaves all as they are. -/
theorem step_eq_ok {line : Nat} {stack stack' : List Open} {t : Token}
    (h : step line stack t = .ok stack') :
    (∃ b, stack' = ⟨b, line⟩ :: stack) ∨ (∃ o, stack = o :: stack') ∨ stack' = stack := by
  -- only brackets change what is open, and an unclosed literal is not accepted
  cases t with
  | opening b =>
    cases h
    exact .inl ⟨b, rfl⟩
  | closing b =>
    cases stack with
    | nil => cases h
    | cons o stack =>
      simp only [step] at h
      split at h
      · cases h
        exact .inr (.inl ⟨o, rfl⟩)
      · cases h
  | unclosed single b => cases h
  | _ =>
    cases h
    exact .inr (.inr rfl)

/-! ## Line numbers -/

/-- An open bracket with another line number. -/
def Open.relabel (f : Nat → Nat) (o : Open) : Open := { o with line := f o.line }

/-- One token, with other line numbers. -/
theorem agree_step_relabel (f : Nat → Nat) (line : Nat) (stack : List Open) (t : Token) :
    Agree (fun s s' => s' = s.map (Open.relabel f)) (step line stack t)
      (step (f line) (stack.map (Open.relabel f)) t) := by
  cases t with
  | closing b =>
    cases stack with
    | nil => exact .error trivial
    | cons o stack =>
      -- a closing bracket takes off the innermost one if the two match
      simp only [List.map_cons, step, Open.relabel]
      split
      · exact .ok rfl
      · exact .error trivial
  | unclosed single b => exact .error trivial
  | _ => exact .ok rfl

/-- The tokens of a line, with other line numbers. -/
theorem agree_nest_relabel (f : Nat → Nat) (line : Nat) (stack : List Open) (ts : List Token) :
    Agree (fun s s' => s' = s.map (Open.relabel f)) (nest line stack ts)
      (nest (f line) (stack.map (Open.relabel f)) ts) := by
  refine Both.foldlM (fun t s s' h => ?_) rfl
  rw [h]
  exact agree_step_relabel f line s t

/-- A bracket that is open after a token was open before or was opened by it. -/
theorem mem_step {line : Nat} {stack stack' : List Open} {t : Token}
    (h : step line stack t = .ok stack') {o : Open} (ho : o ∈ stack') :
    o ∈ stack ∨ o.line = line := by
  obtain ⟨b, rfl⟩ | ⟨p, rfl⟩ | rfl := step_eq_ok h
  · obtain rfl | ho := List.mem_cons.mp ho
    · exact .inr rfl
    · exact .inl ho
  · exact .inl (List.mem_cons_of_mem p ho)
  · exact .inl ho

/-- The lines that hold open brackets are those of before and the one just read. -/
theorem mem_nest {line : Nat} {stack stack' : List Open} {ts : List Token}
    (h : nest line stack ts = .ok stack') {o : Open} (ho : o ∈ stack') :
    o ∈ stack ∨ o.line = line := by
  induction ts generalizing stack with
  | nil => cases h; exact .inl ho
  | cons t ts ih =>
    simp only [nest, List.foldlM_cons] at h
    cases hs : step line stack t with
    | error e => rw [hs] at h; cases h
    | ok s =>
      rw [hs] at h
      -- open after the rest: opened by the rest, or open after `t`
      rcases ih h with hm | hm
      · exact mem_step hs hm
      · exact .inr hm

/-- Numbers that differ where they differed give the same depth. -/
theorem depth_relabel {f : Nat → Nat} {stack : List Open}
    (hf : ∀ o ∈ stack, ∀ p ∈ stack, f o.line = f p.line → o.line = p.line) :
    depth (stack.map (Open.relabel f)) = depth stack := by
  match stack with
  | [] => rfl
  | [_] => rfl
  | o :: p :: stack =>
    have hf' : ∀ a ∈ p :: stack, ∀ b ∈ p :: stack, f a.line = f b.line → a.line = b.line :=
      fun a ha b hb => hf a (List.mem_cons_of_mem o ha) b (List.mem_cons_of_mem o hb)
    have ih := depth_relabel hf'
    -- neighbours share a line in both or in none
    have hop : f o.line = f p.line ↔ o.line = p.line :=
      ⟨hf o (by simp) p (by simp), congrArg f⟩
    simp only [List.map_cons] at ih ⊢
    rw [depth, depth, ih]
    simp only [Open.relabel, hop]

/-- The same brackets are open, on lines that differ where they differed.  The next lines to be read
have the numbers `number` and `number'`. -/
def Renumbered (number number' : Nat) (stack stack' : List Open) : Prop :=
  ∃ f : Nat → Nat, stack' = stack.map (Open.relabel f) ∧
    (∀ o ∈ stack, o.line < number ∧ f o.line < number') ∧
    ∀ o ∈ stack, ∀ p ∈ stack, f o.line = f p.line → o.line = p.line

namespace Renumbered

variable {number number' : Nat} {stack stack' : List Open}

/-- No brackets are open. -/
theorem nil (number number' : Nat) : Renumbered number number' [] [] :=
  ⟨id, rfl, by simp, by simp⟩

/-- Later lines may be next. -/
theorem mono (h : Renumbered number number' stack stack') {n n' : Nat} (hn : number ≤ n)
    (hn' : number' ≤ n') : Renumbered n n' stack stack' := by
  obtain ⟨f, hstack, hlt, hinj⟩ := h
  exact ⟨f, hstack, fun o ho =>
    ⟨Nat.lt_of_lt_of_le (hlt o ho).1 hn, Nat.lt_of_lt_of_le (hlt o ho).2 hn'⟩, hinj⟩

/-- The brackets that a line opens and closes. -/
theorem nest (h : Renumbered number number' stack stack') (ts : List Token) :
    Agree (Renumbered (number + 1) (number' + 1)) (Script.nest number stack ts)
      (Script.nest number' stack' ts) := by
  obtain ⟨f, rfl, hlt, hinj⟩ := h
  -- the line just read gets its own number
  let g : Nat → Nat := fun k => if k = number then number' else f k
  have hg : ∀ o ∈ stack, g o.line = f o.line := fun o ho => if_neg (Nat.ne_of_lt (hlt o ho).1)
  have hmap : stack.map (Open.relabel g) = stack.map (Open.relabel f) :=
    List.map_congr_left fun o ho => by rw [Open.relabel, Open.relabel, hg o ho]
  have hnum : g number = number' := if_pos rfl
  have hagree := agree_nest_relabel g number stack ts
  rw [hnum, hmap] at hagree
  refine hagree.imp_of_eq_ok fun s s' hs hss => ⟨g, hss, fun o ho => ?_, fun o ho p hp hop => ?_⟩
  · rcases mem_nest hs ho with ho | ho
    · rw [hg o ho]
      exact ⟨Nat.lt_succ_of_lt (hlt o ho).1, Nat.lt_succ_of_lt (hlt o ho).2⟩
    · rw [ho, hnum]
      exact ⟨Nat.lt_succ_self _, Nat.lt_succ_self _⟩
  · rcases mem_nest hs ho with ho | ho <;> rcases mem_nest hs hp with hp | hp
    · rw [hg o ho, hg p hp] at hop
      exact hinj o ho p hp hop
    · rw [hg o ho, hp, hnum] at hop
      exact absurd hop (Nat.ne_of_lt (hlt o ho).2)
    · rw [hg p hp, ho, hnum] at hop
      exact absurd hop.symm (Nat.ne_of_lt (hlt p hp).2)
    · rw [ho, hp]

/-- The depth of the brackets that are open. -/
theorem depth_drop (h : Renumbered number number' stack stack') (n : Nat) :
    depth (stack'.drop n) = depth (stack.drop n) := by
  obtain ⟨f, rfl, -, hinj⟩ := h
  rw [← List.map_drop]
  exact depth_relabel fun o ho p hp => hinj o (List.mem_of_mem_drop ho) p (List.mem_of_mem_drop hp)

end Renumbered

end Promptwright.Script
