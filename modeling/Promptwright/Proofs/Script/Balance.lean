import Mathlib.Data.List.Induction
import Promptwright.Proofs.Script.Marks

/-!
# Scripts that are balanced

Formatting accepts a script just if everything in it is closed and its brackets form a balanced
word.  Otherwise it reports the first mark that offends those in front of it, or else what is open
at the end of the script.  Balanced words are given by a grammar, and the innermost open bracket by
what stands behind it: a balanced word.  `follow`, which keeps a stack, decides both.

## Key results

- `Balanced.follow`, `leavesOpen_of_follow`: balanced words and the stack
- `innermost_iff`, `offends_iff`: the innermost open bracket and the stack
- `foldlM_follow_eq_error_iff`: the first mark that offends
- `format_decides_balance`: what formatting accepts, and what it reports
-/

namespace Promptwright.Script

/-! ## Words of marks -/

/-- Words of brackets that match.  It does not matter which lines they stand on. -/
inductive Balanced : List Mark → Prop
  | nil : Balanced []
  | nest (b : Bracket) (m n : Nat) {us vs : List Mark} (hus : Balanced us) (hvs : Balanced vs) :
      Balanced (.opening ⟨b, m⟩ :: us ++ .closing b n :: vs)

/-- The innermost bracket that is open behind some marks: all that follows it matches. -/
def Innermost (before : List Mark) (o : Open) : Prop :=
  ∃ us vs, before = us ++ .opening o :: vs ∧ Balanced vs

/-- A mark that must not stand behind some others: a literal that is not closed, and a closing
bracket that does not match the innermost open one. -/
def Offends (before : List Mark) : Mark → Prop
  | .opening _ => False
  | .closing b _ => ∀ o, Innermost before o → o.bracket ≠ b
  | .unclosed _ => True

/-- No mark offends those in front of it. -/
def Orderly (ms : List Mark) : Prop :=
  ∀ before m after, ms = before ++ m :: after → ¬ Offends before m

/-- The first of some marks that offends those in front of it. -/
structure FirstOffender (ms before : List Mark) (m : Mark) : Prop where
  split : ∃ after, ms = before ++ m :: after
  offends : Offends before m
  orderly : Orderly before

/-- What is reported of a mark that offends those in front of it. -/
inductive Reported (before : List Mark) : Mark → Fault → Prop
  | unclosed (line : Nat) : Reported before (.unclosed line) .unclosedLiteral
  | unmatched (b : Bracket) (line : Nat) (h : ∀ o, ¬ Innermost before o) :
      Reported before (.closing b line) (.unmatched b)
  | mismatch (b : Bracket) (line : Nat) {o : Open} (h : Innermost before o) :
      Reported before (.closing b line) (.mismatch b o)

/-! ## Balanced words and the stack -/

variable {ms before us vs : List Mark} {m : Mark} {o : Open} {stack : List Open}
  {e : FormatError}

/-- Balanced words in a row. -/
theorem Balanced.append (h : Balanced us) (h' : Balanced vs) : Balanced (us ++ vs) := by
  induction h with
  | nil => exact h'
  | nest b m n hus _ _ ih =>
    rw [List.append_assoc, List.cons_append]
    exact .nest b m n hus ih

/-- A balanced word leaves the open brackets as they were. -/
theorem Balanced.follow (h : Balanced ms) (stack : List Open) :
    ms.foldlM Script.follow stack = .ok stack := by
  induction h generalizing stack with
  | nil => rfl
  | nest b m n _ _ ihus ihvs =>
    -- the first bracket waits below all that stands between the two
    have hopening : Script.follow stack (.opening ⟨b, m⟩) = .ok (⟨b, m⟩ :: stack) := rfl
    have hclosing : Script.follow (⟨b, m⟩ :: stack) (.closing b n) = .ok stack := if_pos rfl
    rw [List.cons_append, List.foldlM_cons, bind_of_eq_ok hopening, List.foldlM_append,
      bind_of_eq_ok (ihus _), List.foldlM_cons, bind_of_eq_ok hclosing, ihvs]

/-- The marks leave brackets open, the innermost first: balanced words stand between them. -/
inductive LeavesOpen : List Mark → List Open → Prop
  | balanced {us : List Mark} (h : Balanced us) : LeavesOpen us []
  | opening {us vs : List Mark} {stack : List Open} (o : Open) (h : LeavesOpen us stack)
      (hvs : Balanced vs) : LeavesOpen (us ++ .opening o :: vs) (o :: stack)

/-- A balanced word behind the marks changes nothing. -/
theorem LeavesOpen.append (h : LeavesOpen us stack) (hvs : Balanced vs) :
    LeavesOpen (us ++ vs) stack := by
  cases h with
  | balanced h => exact .balanced (h.append hvs)
  | opening o h hus =>
    rw [List.append_assoc, List.cons_append]
    exact .opening o h (hus.append hvs)

/-- The stack holds the brackets that are left open. -/
theorem leavesOpen_of_follow (h : ms.foldlM follow [] = .ok stack) : LeavesOpen ms stack := by
  induction ms using List.reverseRecOn generalizing stack with
  | nil =>
    cases h
    exact .balanced .nil
  | append_singleton ms m ih =>
    obtain ⟨stack', hms, hm⟩ := foldlM_append_eq_ok h
    rw [List.foldlM_cons] at hm
    obtain ⟨stack'', hm, hnil⟩ := bind_eq_ok hm
    cases hnil
    have hms := ih hms
    cases m with
    | opening o =>
      cases hm
      exact .opening o hms .nil
    | closing b line =>
      cases hms with
      | balanced => cases hm
      | @opening us vs stack' o hus hvs =>
        -- what stands between the two brackets is balanced, so they make a balanced word
        simp only [follow] at hm
        split at hm
        · next hb =>
          cases hm
          obtain ⟨_, n⟩ := o
          subst hb
          rw [List.append_assoc]
          exact hus.append (.nest _ n line hvs .nil)
        · cases hm
    | unclosed line => cases hm

/-- The word is balanced if nothing is left open. -/
theorem balanced_iff_follow : Balanced ms ↔ ms.foldlM follow [] = .ok [] := by
  refine ⟨fun h => h.follow [], fun h => ?_⟩
  cases leavesOpen_of_follow h with
  | balanced h => exact h

/-- The innermost open bracket is the one on top of the stack. -/
theorem innermost_iff (h : ms.foldlM follow [] = .ok stack) :
    Innermost ms o ↔ stack.head? = some o := by
  constructor
  · rintro ⟨us, vs, rfl, hvs⟩
    obtain ⟨stack', -, h⟩ := foldlM_append_eq_ok h
    -- the bracket is put on the stack, and the rest leaves it there
    rw [List.foldlM_cons] at h
    obtain ⟨stack'', ho, h⟩ := bind_eq_ok h
    cases ho
    rw [hvs.follow] at h
    cases h
    rfl
  · intro ho
    cases leavesOpen_of_follow h with
    | balanced => cases ho
    | opening o' _ hvs =>
      cases ho
      exact ⟨_, _, rfl, hvs⟩

/-! ## Marks that offend -/

/-- A mark is followed unless it offends. -/
theorem offends_iff (h : before.foldlM follow [] = .ok stack) :
    Offends before m ↔ ∃ e, follow stack m = .error e := by
  cases m with
  | opening o => simp [Offends, follow]
  | unclosed line => simp [Offends, follow]
  | closing b line =>
    simp only [Offends, innermost_iff h]
    cases stack with
    | nil => simp [follow]
    | cons o stack =>
      by_cases ho : o.bracket = b <;> simp [follow, ho]

/-- A mark that cannot be followed is reported, with its line. -/
theorem reported_of_follow (h : before.foldlM follow [] = .ok stack)
    (hm : follow stack m = .error e) : e.line = m.line ∧ Reported before m e.fault := by
  -- an opening bracket can always be followed, so the mark is one of the other two
  cases m with
  | opening o => cases hm
  | unclosed line =>
    cases hm
    exact ⟨rfl, .unclosed line⟩
  | closing b line =>
    cases stack with
    | nil =>
      cases hm
      exact ⟨rfl, .unmatched b line fun o ho => by cases (innermost_iff h).mp ho⟩
    | cons o stack =>
      simp only [follow] at hm
      split at hm
      · cases hm
      · cases hm
        exact ⟨rfl, .mismatch b line ((innermost_iff h).mpr rfl)⟩

/-- One thing only is reported of a mark. -/
theorem Reported.unique (h : before.foldlM follow [] = .ok stack) {fault fault' : Fault}
    (hf : Reported before m fault) (hf' : Reported before m fault') : fault = fault' := by
  cases hf with
  | unclosed => cases hf'; rfl
  | unmatched b line hnone =>
    cases hf' with
    | unmatched => rfl
    | mismatch _ _ ho => exact absurd ho (hnone _)
  | mismatch b line ho =>
    cases hf' with
    | unmatched _ _ hnone => exact absurd ho (hnone _)
    | mismatch _ _ ho' =>
      rw [Option.some.inj (((innermost_iff h).mp ho).symm.trans ((innermost_iff h).mp ho'))]

/-- Marks can be followed if none offends. -/
theorem orderly_iff : Orderly ms ↔ ∃ stack, ms.foldlM follow [] = .ok stack := by
  constructor
  · intro h
    cases hms : ms.foldlM follow [] with
    | ok stack => exact ⟨stack, rfl⟩
    | error e =>
      obtain ⟨before, m, after, stack, hsplit, hbefore, hm⟩ := foldlM_eq_error hms
      exact absurd ((offends_iff hbefore).mpr ⟨e, hm⟩) (h before m after hsplit)
  · rintro ⟨stack, h⟩ before m after rfl hoffends
    obtain ⟨stack', hbefore, hm⟩ := foldlM_append_eq_ok h
    obtain ⟨e, he⟩ := (offends_iff hbefore).mp hoffends
    rw [List.foldlM_cons, he] at hm
    cases hm

/-- Following marks fails at the first one that offends. -/
theorem foldlM_follow_eq_error_iff :
    ms.foldlM follow [] = .error e ↔
      ∃ before m, FirstOffender ms before m ∧ e.line = m.line ∧ Reported before m e.fault := by
  constructor
  · intro h
    obtain ⟨before, m, after, stack, hsplit, hbefore, hm⟩ := foldlM_eq_error h
    exact ⟨before, m, ⟨⟨after, hsplit⟩, (offends_iff hbefore).mpr ⟨e, hm⟩,
      orderly_iff.mpr ⟨stack, hbefore⟩⟩, reported_of_follow hbefore hm⟩
  · rintro ⟨before, m, ⟨⟨after, rfl⟩, hoffends, horderly⟩, hline, hfault⟩
    obtain ⟨stack, hbefore⟩ := orderly_iff.mp horderly
    obtain ⟨e', he'⟩ := (offends_iff hbefore).mp hoffends
    obtain ⟨hline', hfault'⟩ := reported_of_follow hbefore he'
    -- there is one way to report the mark
    obtain rfl : e = e' := by
      obtain ⟨line, fault⟩ := e
      obtain ⟨line', fault'⟩ := e'
      rw [FormatError.mk.injEq]
      exact ⟨hline.trans hline'.symm, hfault.unique hbefore hfault'⟩
    rw [List.foldlM_append, bind_of_eq_ok hbefore, List.foldlM_cons, he']
    rfl

/-- A literal that is not closed is a mark. -/
theorem exists_unclosed_mem_marksFrom {xs : List Lexeme} {c : Char} {text : List Char}
    (h : .unclosed (c :: text) ∈ xs) (line : Nat) : ∃ n, .unclosed n ∈ marksFrom line xs := by
  induction xs generalizing line with
  | nil => cases h
  | cons x xs ih =>
    by_cases hend : x = .lineEnd
    · subst hend
      rw [marksFrom]
      exact ih ((List.mem_cons.mp h).resolve_left (by simp)) (line + 1)
    rw [marksFrom]
    · obtain rfl | h := List.mem_cons.mp h
      · exact ⟨line, List.mem_append_left _ List.mem_cons_self⟩
      · obtain ⟨n, hn⟩ := ih h line
        exact ⟨n, List.mem_append_right _ hn⟩
    · exact hend

/-- Where no mark offends, all literals are closed. -/
theorem unclosed_not_mem_of_orderly {script : String} (h : Orderly (marks script))
    (hend : .unclosed [] ∉ lexemes script) (text : List Char) :
    .unclosed text ∉ lexemes script := by
  cases text with
  | nil => exact hend
  | cons c text =>
    intro hmem
    obtain ⟨n, hn⟩ := exists_unclosed_mem_marksFrom hmem 1
    obtain ⟨before, after, hsplit⟩ := List.append_of_mem hn
    exact h before _ after hsplit trivial

/-! ## Formatting -/

/-- Whether a fault is noticed at a mark, and not at the end of a script. -/
def Fault.isAtMark : Fault → Bool
  | .unclosedLiteral | .unmatched _ | .mismatch .. => true
  | .unclosedComment | .unclosedTemplate | .unclosedBracket _ => false

/-- What is reported of a mark is noticed there. -/
theorem Reported.isAtMark {fault : Fault} (h : Reported before m fault) :
    fault.isAtMark = true := by
  cases h <;> rfl

/-- Marks that cannot be followed make the script fail. -/
theorem format_of_follow_error {script : String} (h : (marks script).foldlM follow [] = .error e)
    (width : Nat) : format width script = .error e := by
  have hstack := formatLines_stack width script.toList 1 {}
  cases hlines : formatLines width 1 {} (Text.lines script.toList) with
  | error e' =>
    rw [hlines] at hstack
    obtain rfl : e' = e := Except.error.inj (hstack.trans h)
    rw [format, formatChars, hlines]
    rfl
  | ok r =>
    rw [hlines] at hstack
    cases hstack.trans h

/-- Behind marks that can be followed, the end of the script decides. -/
theorem format_of_follow {script : String} (h : (marks script).foldlM follow [] = .ok stack)
    (width : Nat) :
    ∃ target, ∃ l : Layout, l.stack = stack ∧ (.unclosed [] ∈ lexemes script ↔ l.mode ≠ .code) ∧
      format width script = (l.finish.map fun _ => target).mapError
        (FormatError.mk (Text.lines script.toList).length) := by
  have hstack := formatLines_stack width script.toList 1 {}
  cases hlines : formatLines width 1 {} (Text.lines script.toList) with
  | error e =>
    rw [hlines] at hstack
    cases hstack.trans h
  | ok r =>
    obtain ⟨written, l, last⟩ := r
    rw [hlines] at hstack
    refine ⟨String.ofList (unlines written), l, Except.ok.inj (hstack.trans h),
      mode_formatLines script.toList hlines, ?_⟩
    -- the number behind the last line is that of the lines, as counting starts at one
    have hlast : last + 1 = 1 + (Text.lines script.toList).length :=
      number_formatLines Nat.one_pos hlines
    obtain rfl : last = (Text.lines script.toList).length := by omega
    rw [format, formatChars, bind_of_eq_ok hlines]
    dsimp only
    cases l.finish <;> rfl

/-- What can become of a script: it fails at a mark, or at its end inside a comment or a template
literal, or at its end with open brackets, or it is accepted. -/
inductive Verdict (width : Nat) (script : String) : Prop
  | atMark {e : FormatError} (hmarks : (marks script).foldlM follow [] = .error e)
      (h : format width script = .error e)
  | inside {fault : Fault} (horderly : Orderly (marks script))
      (hend : .unclosed [] ∈ lexemes script)
      (hfault : fault = .unclosedComment ∨ fault = .unclosedTemplate)
      (h : format width script = .error ⟨(Text.lines script.toList).length, fault⟩)
  | unclosedBracket {o : Open} {stack : List Open}
      (hmarks : (marks script).foldlM follow [] = .ok (o :: stack))
      (hend : .unclosed [] ∉ lexemes script)
      (h : format width script =
        .error ⟨(Text.lines script.toList).length, .unclosedBracket o⟩)
  | accepted {target : String} (hmarks : (marks script).foldlM follow [] = .ok [])
      (hend : .unclosed [] ∉ lexemes script) (h : format width script = .ok target)

/-- One of these becomes of every script. -/
theorem verdict (width : Nat) (script : String) : Verdict width script := by
  cases hmarks : (marks script).foldlM follow [] with
  | error e => exact .atMark hmarks (format_of_follow_error hmarks width)
  | ok stack =>
    obtain ⟨target, ⟨mode, stack, blank, last⟩, rfl, hend, h⟩ := format_of_follow hmarks width
    cases mode with
    | comment =>
      exact .inside (orderly_iff.mpr ⟨_, hmarks⟩) (hend.mpr nofun) (.inl rfl) h
    | template =>
      exact .inside (orderly_iff.mpr ⟨_, hmarks⟩) (hend.mpr nofun) (.inr rfl) h
    | code =>
      have hclosed : .unclosed [] ∉ lexemes script := fun hmem => hend.mp hmem rfl
      cases stack with
      | nil => exact .accepted hmarks hclosed h
      | cons o stack => exact .unclosedBracket hmarks hclosed h

/-- A script is accepted just if all in it is closed and its brackets are balanced. -/
theorem exists_format_eq_ok_iff {width : Nat} {script : String} :
    (∃ target, format width script = .ok target) ↔
      (∀ text, .unclosed text ∉ lexemes script) ∧ Balanced (marks script) := by
  rw [balanced_iff_follow]
  cases verdict width script with
  | atMark hmarks h => simp [hmarks, h]
  | inside _ hend _ h => simpa [h] using fun hclosed => absurd hend (hclosed [])
  | unclosedBracket hmarks _ h => simp [hmarks, h]
  | accepted hmarks hend h =>
    simpa [hmarks, h] using unclosed_not_mem_of_orderly (orderly_iff.mpr ⟨_, hmarks⟩) hend

/-- A script fails at a mark just if one offends, and then at the first one. -/
theorem format_eq_error_atMark_iff {width : Nat} {script : String} :
    (format width script = .error e ∧ e.fault.isAtMark = true) ↔
      ∃ before m, FirstOffender (marks script) before m ∧ e.line = m.line ∧
        Reported before m e.fault := by
  rw [← foldlM_follow_eq_error_iff]
  constructor
  · rintro ⟨h, hmark⟩
    -- of the four ways in which formatting ends, only the first one reports a mark
    cases verdict width script with
    | atMark hmarks h' =>
      obtain rfl := Except.error.inj (h'.symm.trans h)
      exact hmarks
    | inside _ _ hfault h' =>
      obtain rfl := Except.error.inj (h'.symm.trans h)
      obtain rfl | rfl := hfault
      · cases hmark
      · cases hmark
    | unclosedBracket _ _ h' =>
      obtain rfl := Except.error.inj (h'.symm.trans h)
      cases hmark
    | accepted _ _ h' => cases h'.symm.trans h
  · intro hmarks
    obtain ⟨before, m, -, -, hreported⟩ := foldlM_follow_eq_error_iff.mp hmarks
    exact ⟨format_of_follow_error hmarks width, hreported.isAtMark⟩

/-- A script fails for a bracket that stays open just if nothing else is wrong with it, and then for
the innermost one. -/
theorem format_eq_error_unclosedBracket_iff {width line : Nat} {script : String} :
    format width script = .error ⟨line, .unclosedBracket o⟩ ↔
      (∀ text, .unclosed text ∉ lexemes script) ∧ Orderly (marks script) ∧
        Innermost (marks script) o ∧ line = (Text.lines script.toList).length := by
  constructor
  · intro h
    -- a bracket that stays open is reported in one of the four ways only
    cases verdict width script with
    | atMark hmarks h' =>
      obtain rfl := Except.error.inj (h'.symm.trans h)
      obtain ⟨before, m, -, -, hreported⟩ := foldlM_follow_eq_error_iff.mp hmarks
      cases hreported.isAtMark
    | inside _ _ hfault h' =>
      obtain ⟨-, rfl⟩ := FormatError.mk.inj (Except.error.inj (h'.symm.trans h))
      simp at hfault
    | unclosedBracket hmarks hend h' =>
      obtain ⟨rfl, hfault⟩ := FormatError.mk.inj (Except.error.inj (h'.symm.trans h))
      cases hfault
      have horderly := orderly_iff.mpr ⟨_, hmarks⟩
      exact ⟨unclosed_not_mem_of_orderly horderly hend, horderly, (innermost_iff hmarks).mpr rfl,
        rfl⟩
    | accepted _ _ h' => cases h'.symm.trans h
  · rintro ⟨hclosed, horderly, ho, rfl⟩
    cases verdict width script with
    -- marks that are in order have no first one that offends
    | atMark hmarks _ =>
      obtain ⟨stack, hmarks'⟩ := orderly_iff.mp horderly
      cases hmarks.symm.trans hmarks'
    | inside _ hend _ _ => exact absurd hend (hclosed [])
    | unclosedBracket hmarks _ h =>
      obtain rfl := Option.some.inj ((innermost_iff hmarks).mp ho)
      exact h
    | accepted hmarks _ _ => cases (innermost_iff hmarks).mp ho

/-- A script that is left open fails at its end just if no mark offends. -/
theorem exists_format_eq_error_inside_iff {width : Nat} {script : String} :
    (∃ line, format width script = .error ⟨line, .unclosedComment⟩ ∨
        format width script = .error ⟨line, .unclosedTemplate⟩) ↔
      .unclosed [] ∈ lexemes script ∧ Orderly (marks script) := by
  constructor
  · rintro ⟨line, h⟩
    -- the end of the script is reported in the second way only
    cases verdict width script with
    | atMark hmarks h' =>
      obtain ⟨before, m, -, -, hreported⟩ := foldlM_follow_eq_error_iff.mp hmarks
      have hmark := hreported.isAtMark
      obtain h | h := h
      · rw [Except.error.inj (h'.symm.trans h)] at hmark
        cases hmark
      · rw [Except.error.inj (h'.symm.trans h)] at hmark
        cases hmark
    | inside horderly hend _ _ => exact ⟨hend, horderly⟩
    | unclosedBracket _ _ h' => simp [h'] at h
    | accepted _ _ h' => simp [h'] at h
  · rintro ⟨hend, horderly⟩
    cases verdict width script with
    | atMark hmarks _ =>
      obtain ⟨stack, hmarks'⟩ := orderly_iff.mp horderly
      cases hmarks.symm.trans hmarks'
    | inside _ _ hfault h =>
      obtain rfl | rfl := hfault
      · exact ⟨_, .inl h⟩
      · exact ⟨_, .inr h⟩
    | unclosedBracket _ hend' _ => exact absurd hend hend'
    | accepted _ hend' _ => exact absurd hend hend'

/-- Formatting accepts just the scripts in which every literal is closed on its line, no comment and
no template literal is open at the end, and the brackets of the code are a balanced word.  It fails
at a mark just if some mark offends, a literal that is not closed or a closing bracket that does not
match the innermost open one, and then on the line of the first of these.  If only brackets stay
open then it names the innermost of them and the line where that was opened.  What is left are
scripts in which no mark offends, but that end in a comment or a template literal. -/
theorem format_decides_balance (width : Nat) (script : String) :
    ((∃ target, format width script = .ok target) ↔
      (∀ text, .unclosed text ∉ lexemes script) ∧ Balanced (marks script)) ∧
    (∀ e, (format width script = .error e ∧ e.fault.isAtMark = true) ↔
      ∃ before m, FirstOffender (marks script) before m ∧ e.line = m.line ∧
        Reported before m e.fault) ∧
    (∀ line o, format width script = .error ⟨line, .unclosedBracket o⟩ ↔
      (∀ text, .unclosed text ∉ lexemes script) ∧ Orderly (marks script) ∧
        Innermost (marks script) o ∧ line = (Text.lines script.toList).length) ∧
    ((∃ line, format width script = .error ⟨line, .unclosedComment⟩ ∨
        format width script = .error ⟨line, .unclosedTemplate⟩) ↔
      .unclosed [] ∈ lexemes script ∧ Orderly (marks script)) :=
  ⟨exists_format_eq_ok_iff, fun _ => format_eq_error_atMark_iff,
    fun _ _ => format_eq_error_unclosedBracket_iff, exists_format_eq_error_inside_iff⟩

end Promptwright.Script
