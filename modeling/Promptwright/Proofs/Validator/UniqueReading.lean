import Promptwright.Proofs.Validator.Reader

/-!
# Validators are read in one way only

Every reading of an expression is one from the left to the right: wherever methods go on from what
the expression says, the expression and the methods are read together.  So a text has one reading,
and that of the text of a validator is what the validator accepts.

## Key results

- `Reads.known`: readings are read from the left to the right, whatever follows
- `Reads.unique`: a text has one reading
- `reads_source`: the text of a validator is read, and every reading says what it accepts
-/

namespace Promptwright.Zod

open Script (Literal Starts)
open Validator (Accepts)

variable {M : Measures}

/-! ## Readings from the left to the right -/

section Known

variable {t : String} {σ τ : Stage}

/-- A text is an expression up to some stage, whatever follows: where methods go on from this stage,
the text and what follows it are an expression. -/
def Known (M : Measures) (t : String) (σ : Stage) : Prop :=
  ∀ (r s : String) (P : Condition), Methods M σ r P s → Expression M (t ++ r) P s

/-- An expression ends where no method starts. -/
theorem Known.ended (h : Known M t σ) {r : String} (hr : ¬Starts ['.'] r) :
    Expression M (t ++ r) σ.condition r := h _ _ _ (.done hr)

/-- What stands behind expressions that are parts of other ones. -/
def marks : List String := [")", ", ", "])", ",\n", "\n\x7d)"]

/-- An expression ends before such a mark. -/
theorem Known.mark (h : Known M t σ) {m : String} (hm : m ∈ marks) (r : String) :
    Expression M (t ++ (m ++ r)) σ.condition (m ++ r) := by
  have hall : ∀ a ∈ marks, ¬a.toList <+: ['.'] ∧ ¬['.'] <+: a.toList := by decide +kernel
  refine h.ended fun hdot => ?_
  have hmark : Starts m.toList (m ++ r) := Starts.append List.prefix_rfl r
  exact ne_of_starts hmark hdot (hall m hm) rfl

/-- What needs nothing but its start. -/
theorem Known.opening {f : Former} (h : ∀ {r s P}, Methods M σ r P s → Formed M f r P s) :
    Known M f.opening σ := fun _ _ _ hr => .start f rfl (h hr)

/-- A start and what stands behind it. -/
theorem Known.behind {f : Former} {u : String}
    (h : ∀ {r s P}, Methods M σ r P s → Formed M f (u ++ r) P s) : Known M (f.opening ++ u) σ :=
  fun _ _ _ hr => .start f (String.append_assoc ..) (h hr)

/-- One more method. -/
theorem Known.call (h : Known M t σ) {m : Method} {a : Argument} {u : String}
    (ha : ∀ r, Argued M m.takes (u ++ r) a r) (hcall : σ.call M m a = some τ) :
    Known M (t ++ (m.opening ++ u)) τ := by
  intro r s P hr
  rw [String.append_assoc, String.append_assoc]
  exact h _ _ _ (.call m rfl (ha r) hcall hr)

/-- One more method that takes nothing. -/
theorem Known.method (h : Known M t σ) {m : Method} (hm : m.takes = .nothing)
    (hcall : σ.call M m .nothing = some τ) : Known M (t ++ m.opening) τ := by
  rw [← String.append_empty (s := m.opening)]
  refine h.call (fun r => ?_) hcall
  rw [hm, String.empty_append]
  exact .nothing

/-- One more method on a number. -/
theorem Known.number (h : Known M t σ) {m : Method} (hm : m.takes = .number) {n : Json.Number}
    (hn : n.Proper) (hcall : σ.call M m (.number n) = some τ) :
    Known M (t ++ (m.opening ++ n.text ++ ")")) τ := by
  rw [String.append_assoc]
  refine h.call (fun r => ?_) hcall
  rw [hm]
  exact .number ⟨hn, rfl⟩ rfl

/-- One more method on a text. -/
theorem Known.text (h : Known M t σ) {m : Method} {closing : String} (hm : m.takes = .text closing)
    {q d : String} (hq : Literal q d) (hcall : σ.call M m (.text d) = some τ) :
    Known M (t ++ (m.opening ++ (q ++ closing))) τ := by
  refine h.call (fun r => ?_) hcall
  rw [hm]
  exact .text hq (String.append_assoc ..)

/-- Expressions for texts. -/
theorem ReadsText.known {P : String → Prop} (h : ReadsText M t P) : Known M t (.text P) := by
  induction h with
  | string => exact .opening .text
  | min hn _ ih => exact ih.number (m := .min) rfl hn rfl
  | max hn _ ih => exact ih.number (m := .max) rfl hn rfl
  | regex hq _ ih =>
    rw [String.append_assoc]
    exact ih.text (m := .regex) rfl hq rfl
  | email _ ih => exact ih.method (m := .email) rfl rfl
  | url _ ih => exact ih.method (m := .url) rfl rfl
  | uuid _ ih => exact ih.method (m := .uuid) rfl rfl
  | datetime _ ih => exact ih.method (m := .datetime) rfl rfl

/-- Expressions for numbers. -/
theorem ReadsNumber.known {P : Json.Number → Prop} (h : ReadsNumber M t P) :
    Known M t (.number P) := by
  induction h with
  | number => exact .opening .number
  | int _ ih => exact ih.method (m := .int) rfl rfl
  | gt hb _ ih => exact ih.number (m := .gt) rfl hb rfl
  | gte hb _ ih => exact ih.number (m := .gte) rfl hb rfl
  | lt hb _ ih => exact ih.number (m := .lt) rfl hb rfl
  | lte hb _ ih => exact ih.number (m := .lte) rfl hb rfl
  | multipleOf hb _ ih => exact ih.number (m := .multipleOf) rfl hb rfl

mutual

/-- Every reading of an expression is one from the left to the right. -/
theorem Reads.known {t : String} {P : Condition} : Reads M t P → ∃ σ, σ.condition = P ∧ Known M t σ
  | .any => ⟨_, rfl, .opening .any⟩
  | .never => ⟨_, rfl, .opening .never⟩
  | .comment hc h => by
    obtain ⟨σ, hσ, hknown⟩ := h.known
    refine ⟨σ, hσ, ?_⟩
    simp only [String.append_assoc]
    refine .behind (f := .comment) fun hr => ?_
    exact .comment ⟨_, hc, rfl⟩ (by simp only [String.append_assoc]) (hknown _ _ _ hr)
  | .text h => ⟨.text _, rfl, h.known⟩
  | .number h => ⟨.number _, rfl, h.known⟩
  | .boolean => ⟨_, rfl, .opening .boolean⟩
  | .null => ⟨_, rfl, .opening .null⟩
  | .literal ht => by
    refine ⟨.done _, rfl, ?_⟩
    rw [String.append_assoc]
    exact .behind (f := .literal) fun hr => .literal ⟨_, ht, rfl⟩ rfl hr
  | .enum h => by
    refine ⟨.done _, rfl, ?_⟩
    rw [String.append_assoc]
    exact .behind (f := .enum) fun hr => .enum ⟨_, h, rfl⟩ rfl hr
  | .union h => by
    refine ⟨.done _, rfl, ?_⟩
    rw [String.append_assoc]
    refine .behind (f := .union) fun hr => ?_
    rw [String.append_assoc]
    exact .union (h.known _) hr
  | .intersection h h' => by
    obtain ⟨σ, rfl, hσ⟩ := h.known
    obtain ⟨τ, rfl, hτ⟩ := h'.known
    refine ⟨.done _, rfl, ?_⟩
    simp only [String.append_assoc]
    refine .behind (f := .intersection) fun hr => ?_
    simp only [String.append_assoc]
    exact .intersection (hσ.mark (by decide) _) (hτ.mark (by decide) _) hr
  | .array h => ⟨.array _, rfl, h.known⟩
  | @Reads.object _ t _ ps _ h hr => by
    have hobject : Known M (Former.object.opening ++ (t ++ "\x7d)")) (.object ps) := by
      refine .behind fun hr => ?_
      rw [String.append_assoc]
      exact .object (h.known _) hr
    obtain ⟨σ, hσ, hknown⟩ := hr.known hobject
    rw [← String.append_assoc] at hknown
    exact ⟨σ, hσ, hknown⟩
  | .optional h => by
    obtain ⟨σ, rfl, hσ⟩ := h.known
    exact ⟨.done _, rfl, hσ.method (m := .optional) rfl (by cases σ <;> rfl)⟩
  | .nullable h => by
    obtain ⟨σ, rfl, hσ⟩ := h.known
    exact ⟨.done _, rfl, hσ.method (m := .nullable) rfl (by cases σ <;> rfl)⟩
  | .describe hq h => by
    obtain ⟨σ, rfl, hσ⟩ := h.known
    refine ⟨.done _, rfl, ?_⟩
    simp only [String.append_assoc]
    exact hσ.text (m := .describe) rfl hq (by cases σ <;> rfl)

/-- The same for expressions for lists. -/
theorem ReadsArray.known {t : String} {P : List Json → Prop} :
    ReadsArray M t P → Known M t (.array P)
  | .array h => by
    obtain ⟨σ, rfl, hσ⟩ := h.known
    rw [String.append_assoc]
    refine .behind (f := .array) fun hr => ?_
    rw [String.append_assoc]
    exact .array (hσ.mark (by decide) _) hr
  | .tuple h => by
    rw [String.append_assoc]
    refine .behind (f := .tuple) fun hr => ?_
    rw [String.append_assoc]
    exact .tuple (h.known _) hr
  | .min hn h => h.known.number (m := .min) rfl hn rfl
  | .max hn h => h.known.number (m := .max) rfl hn rfl
  | .refineMin hn h => h.known.number (m := .refineMin) rfl hn rfl
  | .refineMax hn h => h.known.number (m := .refineMax) rfl hn rfl

/-- The same for expressions between commas, and the brackets behind them. -/
theorem ReadsList.known {t : String} {Ps : List Condition} :
    ReadsList M t Ps → ∀ r, Expressions M (t ++ ("])" ++ r)) Ps r
  | .nil, _ => .nil (String.empty_append ..)
  | .one h, r => by
    obtain ⟨σ, rfl, hσ⟩ := h.known
    exact .one (hσ.mark (by decide) r)
  | .cons h h', r => by
    obtain ⟨σ, rfl, hσ⟩ := h.known
    simp only [String.append_assoc]
    exact .cons (hσ.mark (by decide) _) (h'.known r)

/-- The same for what stands between the braces of an object, and the closing brace. -/
theorem ReadsMembers.known {t : String} {ps : List (String × Condition)} :
    ReadsMembers M t ps → ∀ r, Members M (t ++ ("\x7d)" ++ r)) ps r
  | .empty, _ => .empty (String.empty_append ..)
  | .lines h, r => by
    -- the line that the brace stands on starts behind the members
    have hclose : "\n" ++ "\x7d)" = "\n\x7d)" := by decide
    have hentries := h.known r
    rw [← hclose, String.append_assoc] at hentries
    refine .lines ?_ hentries
    simp only [String.append_assoc]

/-- The same for names with expressions, and the closing brace. -/
theorem ReadsEntries.known {t : String} {ps : List (String × Condition)} :
    ReadsEntries M t ps → ∀ r, Entries M (t ++ ("\n\x7d)" ++ r)) ps r
  | .one hq h, r => by
    obtain ⟨σ, rfl, hσ⟩ := h.known
    simp only [String.append_assoc]
    exact .one hq rfl (hσ.mark (by decide) r)
  | .cons hq h h', r => by
    obtain ⟨σ, rfl, hσ⟩ := h.known
    simp only [String.append_assoc]
    exact .cons hq rfl (hσ.mark (by decide) _) (h'.known r)

/-- The same for what else an object may hold. -/
theorem ReadsRest.known {u : String} {Q : List String → Json.Members → Prop} :
    ReadsRest M u Q → ∀ {t : String} {ps : List (String × Condition)}, Known M t (.object ps) →
      ∃ σ, σ.condition = objectCondition ps Q ∧ Known M (t ++ u) σ
  | .free, _, ps, hobject => ⟨.object ps, rfl, by rwa [String.append_empty]⟩
  | .strict, _, _, hobject => ⟨.done _, rfl, hobject.method (m := .strict) rfl rfl⟩
  | .catchall h, _, _, hobject => by
    obtain ⟨σ, rfl, hσ⟩ := h.known
    rw [String.append_assoc]
    refine ⟨.done _, rfl, ?_⟩
    refine hobject.call (m := .catchall) (a := .condition σ.condition) (fun r => ?_) rfl
    rw [String.append_assoc]
    exact .expression (hσ.mark (by decide) r)

end

/-- A text has one reading. -/
theorem Reads.unique {P Q : Condition} (h : Reads M t P) (h' : Reads M t Q) : P = Q := by
  obtain ⟨σ, rfl, hσ⟩ := h.known
  obtain ⟨τ, rfl, hτ⟩ := h'.known
  have hend : ¬Starts ['.'] "" := by simp [Starts]
  exact ((hσ.ended hend).unique (hτ.ended hend)).1

end Known

/-! ## Texts of validators -/

/-- The text of a validator is read, and every reading says what the validator accepts. -/
theorem reads_source {v : Validator} (hv : v.Proper) : (∃ P, Reads M v.source P) ∧
    ∀ P, Reads M v.source P → ∀ x, P x ↔ Accepts M v x := by
  obtain ⟨P, hP, hiff⟩ := exists_reads_source (M := M) v hv
  refine ⟨⟨P, hP⟩, fun Q hQ => ?_⟩
  rw [hQ.unique hP]
  exact hiff

/-- The same for a validator that a proper schema yields. -/
theorem reads_source_of_yields {schema : Json} (hproper : schema.Proper) {v : Validator}
    (hv : Validator.Yields schema v) : (∃ P, Reads M v.source P) ∧
    ∀ P, Reads M v.source P → ∀ x, P x ↔ Accepts M v x :=
  reads_source (Validator.proper_of_yields hproper hv)

end Promptwright.Zod
