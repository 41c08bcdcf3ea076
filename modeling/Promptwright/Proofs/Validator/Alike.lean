import Promptwright.Proofs.Script.CodeText
import Promptwright.Proofs.Validator.Reworded

/-!
# Alike validators

Two validators are alike if their texts are, as pieces of scripts.  A validator is alike another one
if its parts are and what stands between them is the same code.

## Key results

- `alike_textCheck`, `alike_numberCheck`, `alike_sizeCheck`: conditions
- `alike_literal`, `alike_choice`, `alike_unknown`: where texts of a schema go
- `alike_union`, `alike_array`, `alike_tuple`, `alike_object`: validators with parts
- `alike_dressed`: what `nullable` and `description` add
-/

namespace Promptwright.Validator

open Json (Child declared child_induction)
open Json.Members (lookup)
open Script (Alike CodeText)

variable {ms ns : Json.Members}

/-! ## Conditions -/

/-- Texts in a row are alike one by one. -/
theorem alike_concat {ss ts : List String} (h : List.Forall₂ Alike ss ts) :
    Alike (concat ss) (concat ts) := by
  induction h with
  | nil => exact .code (by decide)
  | cons hs _ ih => exact hs.append ih

/-- A call of a method is code. -/
theorem codeText_call {method : String} (h : CodeText method) (n : Json.Number) :
    CodeText (call method n) :=
  ((((by decide : CodeText ".").append h).append (by decide)).append
    (Script.wordText_number n).codeText).append (by decide)

/-- Two patterns are alike. -/
theorem alike_pattern (r r' : String) :
    Alike (TextCheck.pattern r).text (TextCheck.pattern r').text :=
  ((Alike.code (by decide)).append (.quote r r')).append (.code (by decide))

/-- A condition on a text is alike itself. -/
theorem alike_textCheck (c : TextCheck) : Alike c.text c.text := by
  cases c with
  | minLength n => exact .code (codeText_call (by decide) n)
  | maxLength n => exact .code (codeText_call (by decide) n)
  | pattern r => exact alike_pattern r r
  | format f => cases f <;> exact .code (by decide)

/-- A condition on a number is alike itself. -/
theorem alike_numberCheck (c : NumberCheck) : Alike c.text c.text := by
  have hmethod : ∀ r : Relation, CodeText r.method := fun r => by cases r <;> decide
  exact .code (codeText_call (hmethod c.relation) c.bound)

/-- A condition on the number of items is alike itself. -/
theorem alike_sizeCheck (c : SizeCheck) : Alike c.text c.text := by
  cases c with
  | min n => exact .code (codeText_call (by decide) n)
  | max n => exact .code (codeText_call (by decide) n)

/-- The same condition on a tuple. -/
theorem alike_tupleCheck (c : SizeCheck) : Alike c.tupleText c.tupleText := by
  cases c with
  | min n =>
    exact .code (((by decide : CodeText ".refine((items) => items.length >= ").append
      (Script.wordText_number n).codeText).append (by decide))
  | max n =>
    exact .code (((by decide : CodeText ".refine((items) => items.length <= ").append
      (Script.wordText_number n).codeText).append (by decide))

/-- Conditions are alike themselves. -/
theorem alike_checks {γ : Type} {text : γ → String} (h : ∀ c, Alike (text c) (text c))
    (cs : List γ) : Alike (concat (cs.map text)) (concat (cs.map text)) := by
  refine alike_concat (List.forall₂_same.mpr fun s hs => ?_)
  obtain ⟨c, -, rfl⟩ := List.mem_map.mp hs
  exact h c

/-! ## Validators, part by part -/

/-- Two validators whose texts are alike. -/
def AlikeSource (v w : Validator) : Prop := Alike v.source w.source

variable {v w v' w' : Validator} {vs ws : List Validator}

/-- Gaps are alike. -/
theorem alike_unknown (g g' : Gap) : AlikeSource (.unknown g) (.unknown g') :=
  (Alike.comment g g').append (.code (by decide))

/-- A literal of reworded values. -/
theorem alike_literal {j k : Json} (hj : j.isComposite = false) (h : RewordedValue j k) :
    AlikeSource (.literal j) (.literal k) := by
  refine ((Alike.code (by decide)).append ?_).append (.code (by decide))
  cases h with
  | text s t => exact .quoted s t
  | same =>
    cases j with
    | null => exact .code (by decide)
    | bool b => cases b <;> exact .code (by decide)
    | number n => exact .code (Script.wordText_number n).codeText
    | string s => exact .quoted s s
    | array _ => cases hj
    | object _ => cases hj

/-- Alike texts between commas. -/
theorem alike_intercalate {ss ts : List String} (h : List.Forall₂ Alike ss ts) :
    Alike (", ".intercalate ss) (", ".intercalate ts) := by
  induction h with
  | nil => exact .code (by decide)
  | cons hst hss ih =>
    cases hss with
    | nil =>
      rw [String.intercalate_singleton, String.intercalate_singleton]
      exact hst
    | cons _ _ =>
      rw [String.intercalate_cons_cons, String.intercalate_cons_cons]
      exact (hst.append (.code (by decide))).append ih

/-- Texts to choose from are alike if there are equally many. -/
theorem alike_choice {ss ts : List String} (h : ss.length = ts.length) :
    AlikeSource (.choice ss) (.choice ts) := by
  have htexts : List.Forall₂ (fun _ _ => True) ss ts :=
    List.forall₂_of_length_eq_of_get h fun _ _ _ => trivial
  have hquoted : List.Forall₂ Alike (ss.map Json.quoted) (ts.map Json.quoted) :=
    List.rel_map (fun s t _ => .quoted s t) htexts
  exact ((Alike.code (by decide)).append (alike_intercalate hquoted)).append (.code (by decide))

/-- Validators between commas. -/
theorem alike_itemsSource (h : List.Forall₂ AlikeSource vs ws) :
    Alike (itemsSource vs) (itemsSource ws) := by
  induction h with
  | nil => exact .code (by decide)
  | @cons v w vs ws hv hvs ih =>
    cases hvs with
    | nil => exact hv
    | cons _ _ => exact (Alike.append hv (.code (by decide))).append ih

/-- Unions. -/
theorem alike_union (h : List.Forall₂ AlikeSource vs ws) :
    AlikeSource (.union vs) (.union ws) :=
  ((Alike.code (by decide)).append (alike_itemsSource h)).append (.code (by decide))

/-- Intersections. -/
theorem alike_intersection (h : AlikeSource v w) (h' : AlikeSource v' w') :
    AlikeSource (.intersection v v') (.intersection w w') :=
  ((((Alike.code (by decide)).append h).append (.code (by decide))).append h').append
    (.code (by decide))

/-- Lists with the same conditions. -/
theorem alike_array (h : AlikeSource v w) (cs : List SizeCheck) :
    AlikeSource (.array v cs) (.array w cs) :=
  (((Alike.code (by decide)).append h).append (.code (by decide))).append
    (alike_checks alike_sizeCheck cs)

/-- Tuples with the same conditions. -/
theorem alike_tuple (h : List.Forall₂ AlikeSource vs ws) (cs : List SizeCheck) :
    AlikeSource (.tuple vs cs) (.tuple ws cs) :=
  (((Alike.code (by decide)).append (alike_itemsSource h)).append (.code (by decide))).append
    (alike_checks alike_tupleCheck cs)

/-- Two properties that are required or not, with alike validators. -/
def AlikeProperty (p q : Property Validator) : Prop :=
  p.required = q.required ∧ AlikeSource p.value q.value

/-- Properties on lines of their own. -/
theorem alike_propertiesSource {ps qs : List (Property Validator)}
    (h : List.Forall₂ AlikeProperty ps qs) : Alike (propertiesSource ps) (propertiesSource qs) := by
  induction h with
  | nil => exact .code (by decide)
  | @cons p q ps qs hp hps ih =>
    obtain ⟨name, required, v⟩ := p
    obtain ⟨name', required', w⟩ := q
    obtain ⟨hrequired, hv⟩ := hp
    cases hrequired
    have hline : Alike (Script.quote name ++ ": " ++ source v ++ optionalText required)
        (Script.quote name' ++ ": " ++ source w ++ optionalText required) := by
      refine (((Alike.quote name name').append (.code (by decide))).append hv).append ?_
      cases required <;> exact .code (by decide)
    cases hps with
    | nil => exact hline
    | cons _ _ => exact (hline.append (.code (by decide))).append ih

/-- What else objects may hold. -/
def AlikeRest (r s : Rest Validator) : Prop := Alike (restSource r) (restSource s)

/-- Objects. -/
theorem alike_object {ps qs : List (Property Validator)} {r s : Rest Validator}
    (h : List.Forall₂ AlikeProperty ps qs) (hr : AlikeRest r s) :
    AlikeSource (.object ps r) (.object qs s) := by
  cases h with
  | nil => exact (Alike.code (by decide)).append hr
  | cons hp hps =>
    exact (((Alike.code (by decide)).append (alike_propertiesSource (.cons hp hps))).append
      (.code (by decide))).append hr

/-! ## What decides about a node -/

/-- Any of some members. -/
theorem alike_ofMembers (h : List.Forall₂ AlikeSource vs ws) :
    AlikeSource (Children.union vs) (Children.union ws) := by
  cases h with
  | nil => exact alike_unknown _ _
  | cons hv hvs =>
    cases hvs with
    | nil => exact hv
    | cons hv' hvs => exact alike_union (.cons hv (.cons hv' hvs))

/-- All of some members. -/
theorem alike_foldl_intersection (h : List.Forall₂ AlikeSource vs ws) (hv : AlikeSource v w) :
    AlikeSource (vs.foldl .intersection v) (ws.foldl .intersection w) := by
  induction h generalizing v w with
  | nil => exact hv
  | cons hv' _ ih => exact ih (alike_intersection hv hv')

/-- All of some members, perhaps none. -/
theorem alike_ofAll (h : List.Forall₂ AlikeSource vs ws) :
    AlikeSource (Children.intersection vs) (Children.intersection ws) := by
  cases h with
  | nil => exact alike_unknown _ _
  | cons hv hvs => exact alike_foldl_intersection hvs hv

/-- Any of some types. -/
theorem alike_ofTypes (h : List.Forall₂ AlikeSource vs ws) :
    AlikeSource (ofTypes vs) (ofTypes ws) := by
  cases h with
  | nil => exact alike_unknown _ _
  | cons hv hvs =>
    cases hvs with
    | nil => exact hv
    | cons hv' hvs => exact alike_union (.cons hv (.cons hv' hvs))

/-- Reworded values are all texts, equally many, or not all texts. -/
theorem mapM_string?_of_reworded {js ks : List Json} (h : List.Forall₂ RewordedValue js ks) :
    (js.mapM Json.string? = none ∧ ks.mapM Json.string? = none) ∨
      ∃ ss ts, js.mapM Json.string? = some ss ∧ ks.mapM Json.string? = some ts ∧
        ss.length = ts.length := by
  induction h with
  | nil => exact .inr ⟨[], [], rfl, rfl, rfl⟩
  | @cons j k js ks hjk _ ih =>
    rw [List.mapM_cons, List.mapM_cons]
    have htext : (Json.string? j = none ∧ Json.string? k = none) ∨
        ∃ s t, Json.string? j = some s ∧ Json.string? k = some t := by
      cases hjk with
      | text s t => exact .inr ⟨s, t, rfl, rfl⟩
      | same =>
        cases hs : Json.string? j with
        | none => exact .inl ⟨rfl, rfl⟩
        | some s => exact .inr ⟨s, s, rfl, rfl⟩
    -- two values in front that are no texts settle it, and two texts leave it to the rest
    obtain ⟨hj, hk⟩ | ⟨s, t, hj, hk⟩ := htext
    · rw [hj, hk]
      exact .inl ⟨rfl, rfl⟩
    · rw [hj, hk]
      obtain ⟨hjs, hks⟩ | ⟨ss, ts, hjs, hks, hlength⟩ := ih
      · rw [hjs, hks]
        exact .inl ⟨rfl, rfl⟩
      · rw [hjs, hks]
        exact .inr ⟨s :: ss, t :: ts, rfl, rfl, congrArg Nat.succ hlength⟩

/-- Literals of reworded values. -/
theorem forall₂_alike_literal {js ks : List Json} (hjs : ∀ j ∈ js, j.isComposite = false)
    (h : List.Forall₂ RewordedValue js ks) :
    List.Forall₂ AlikeSource (js.map .literal) (ks.map .literal) := by
  induction h with
  | nil => exact .nil
  | cons hjk _ ih =>
    obtain ⟨hj, hjs⟩ := List.forall_mem_cons.mp hjs
    exact .cons (alike_literal hj hjk) (ih hjs)

/-- One of some reworded values. -/
theorem alike_ofValues {js ks : List Json} (hjs : ∀ j ∈ js, j.isComposite = false)
    (h : List.Forall₂ RewordedValue js ks) : AlikeSource (ofValues js) (ofValues ks) := by
  match js, ks, h with
  | [], [], _ => exact .code (by decide)
  | [j], [k], .cons hjk _ => exact alike_literal (hjs j List.mem_cons_self) hjk
  | j :: j' :: js, k :: k' :: ks, h =>
    rw [ofValues, ofValues]
    · obtain ⟨hnone, hnone'⟩ | ⟨ss, ts, hss, hts, hlength⟩ := mapM_string?_of_reworded h
      · rw [hnone, hnone']
        exact alike_union (forall₂_alike_literal hjs h)
      · rw [hss, hts]
        exact alike_choice hlength
    all_goals nofun

/-- Described validators. -/
theorem alike_described (h : AlikeSource v w) (s t : String) :
    AlikeSource (.described v s) (.described w t) :=
  ((Alike.append h (.code (by decide))).append (.quote s t)).append (.code (by decide))

/-- What `nullable` and `description` add. -/
theorem alike_dressed (h : List.Forall₂ RewordedMember ms ns)
    (hv : AlikeSource v w) : AlikeSource (dressed ms v) (dressed ns w) := by
  -- `nullable` is no text, so it is the same on both sides, while a description may differ
  have hnull : AlikeSource (if isTrue ms "nullable" then .nullable v else v)
      (if isTrue ns "nullable" then .nullable w else w) := by
    rw [isTrue_eq h "nullable" (by decide)]
    split
    · exact Alike.append hv (.code (by decide))
    · exact hv
  rw [dressed, dressed]
  obtain ⟨hj, hk⟩ | ⟨j, k, hj, hk, hjk⟩ := lookup_reworded h "description"
  · rw [hj, hk]
    exact hnull
  · rw [hj, hk]
    obtain rfl | ⟨s, t, rfl, rfl⟩ := hjk.of_text (by decide)
    · cases j with
      | string s => exact alike_described hnull s s
      | _ => exact hnull
    · exact alike_described hnull s t

end Promptwright.Validator
