import Mathlib.Data.List.Forall2
import Promptwright.Json.Printer
import Promptwright.Proofs.Script.CodeText

/-!
# Values with other texts

Two values are `Rephrased` if they have the same shape and differ in their texts only, keys
included.  Their texts are alike, as pieces of scripts: all that differs stands between double
quotes.

## Key results

- `alike_prettyAt`: rephrased values have alike texts
-/

namespace Promptwright.Json

open Script (Alike CodeText)

/-! ## The relation -/

mutual

/-- Two values that differ in texts only. -/
inductive Rephrased : Json → Json → Prop
  | null : Rephrased .null .null
  | bool (b : Bool) : Rephrased (.bool b) (.bool b)
  | number (n : Json.Number) : Rephrased (.number n) (.number n)
  | string (s t : String) : Rephrased (.string s) (.string t)
  | array {js ks : List Json} (h : RephrasedItems js ks) : Rephrased (.array js) (.array ks)
  | object {ms ns : Members} (h : RephrasedMembers ms ns) : Rephrased (.object ms) (.object ns)

/-- Items that differ in texts only. -/
inductive RephrasedItems : List Json → List Json → Prop
  | nil : RephrasedItems [] []
  | cons {j k : Json} {js ks : List Json} (h : Rephrased j k) (hs : RephrasedItems js ks) :
      RephrasedItems (j :: js) (k :: ks)

/-- Members that differ in keys and texts only. -/
inductive RephrasedMembers : Members → Members → Prop
  | nil : RephrasedMembers [] []
  | cons {j k : Json} {ms ns : Members} (key key' : String) (h : Rephrased j k)
      (hs : RephrasedMembers ms ns) : RephrasedMembers ((key, j) :: ms) ((key', k) :: ns)

end

/-- Items that are rephrased one by one. -/
theorem rephrasedItems_of_forall₂ {js ks : List Json} (h : List.Forall₂ Rephrased js ks) :
    RephrasedItems js ks := by
  induction h with
  | nil => exact .nil
  | cons h _ ih => exact .cons h ih

/-! ## Texts -/

/-- The start of a line is code. -/
theorem codeText_newline (depth : Nat) : CodeText (newline depth) := by
  refine CodeText.append (by decide) (Script.codeText_ofList fun c hc => ?_)
  rw [List.eq_of_mem_replicate hc]
  decide

mutual

/-- Rephrased values have alike texts. -/
theorem alike_prettyAt {j k : Json} (h : Rephrased j k) (depth : Nat) :
    Alike (prettyAt depth j) (prettyAt depth k) := by
  -- the line breaks do not depend on the texts
  have hline := fun d => Alike.code (codeText_newline d)
  match h with
  | .null => exact .code (t := "null") (by decide)
  | .bool true => exact .code (t := "true") (by decide)
  | .bool false => exact .code (t := "false") (by decide)
  | .number n => exact .code (Script.wordText_number n).codeText
  | .string s t => exact .quoted s t
  | .array .nil => exact .code (t := "[]") (by decide)
  | .array (.cons h hs) =>
    exact (((((Alike.code (by decide)).append (hline _)).append (alike_prettyAt h _)).append
      (alike_prettyItems hs _)).append (hline _)).append (.code (by decide))
  | .object .nil => exact .code (t := "\x7b\x7d") (by decide)
  | .object (.cons key key' h hs) =>
    exact (((((((Alike.code (by decide)).append (hline _)).append (.quoted key key')).append
      (.code (by decide))).append (alike_prettyAt h _)).append (alike_prettyMembers hs _)).append
      (hline _)).append (.code (by decide))

/-- Further rephrased items have alike texts. -/
theorem alike_prettyItems {js ks : List Json} (h : RephrasedItems js ks) (depth : Nat) :
    Alike (prettyItems depth js) (prettyItems depth ks) := by
  match h with
  | .nil => exact .code (t := "") (by decide)
  | .cons h hs =>
    exact (((Alike.code (by decide)).append (.code (codeText_newline depth))).append
      (alike_prettyAt h depth)).append (alike_prettyItems hs depth)

/-- Further rephrased members have alike texts. -/
theorem alike_prettyMembers {ms ns : Members} (h : RephrasedMembers ms ns) (depth : Nat) :
    Alike (prettyMembers depth ms) (prettyMembers depth ns) := by
  match h with
  | .nil => exact .code (t := "") (by decide)
  | .cons key key' h hs =>
    exact (((((Alike.code (by decide)).append (.code (codeText_newline depth))).append
      (.quoted key key')).append (.code (by decide))).append (alike_prettyAt h depth)).append
      (alike_prettyMembers hs depth)

end

end Promptwright.Json
