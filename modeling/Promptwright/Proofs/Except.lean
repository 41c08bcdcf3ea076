import Mathlib.Data.List.Forall2

/-!
# Results that are no errors

What must have gone well for a result to be `ok`.

## Key results

- `bind_eq_ok`: both steps of a sequence went well
- `bind_eq_error`: one step of a sequence failed
- `mapM_eq_ok`: every step of a list went well
- `foldlM_eq_error`: the first step of a list that failed
- `exists_of_mem_left`, `exists_of_mem_right`: partners in lists side by side
- `forall₂_comp`, `forall₂_partners`: related lists with further lists beside them
-/

namespace Promptwright

variable {ε α β : Type}

/-- A mapped result is a result that is mapped. -/
theorem map_eq_ok {f : α → β} {x : Except ε α} {b : β} (h : x.map f = .ok b) :
    ∃ a, x = .ok a ∧ f a = b := by
  cases x with
  | error e => cases h
  | ok a => exact ⟨a, rfl, Except.ok.inj h⟩

/-- A sequence went well if both of its steps did. -/
theorem bind_eq_ok {x : Except ε α} {f : α → Except ε β} {b : β} (h : x >>= f = .ok b) :
    ∃ a, x = .ok a ∧ f a = .ok b := by
  cases x with
  | error e => cases h
  | ok a => exact ⟨a, rfl, h⟩

/-- A sequence goes on with the result of its first step. -/
theorem bind_of_eq_ok {x : Except ε α} {a : α} (h : x = .ok a) (f : α → Except ε β) :
    x >>= f = f a := by
  rw [h]
  rfl

/-- A sequence failed if one of its steps did. -/
theorem bind_eq_error {x : Except ε α} {f : α → Except ε β} {e : ε} (h : x >>= f = .error e) :
    x = .error e ∨ ∃ a, x = .ok a ∧ f a = .error e := by
  cases x with
  | error e' =>
    cases h
    exact .inl rfl
  | ok a => exact .inr ⟨a, rfl, h⟩

/-- Where the second step cannot fail, the first one did. -/
theorem bind_pure_eq_error {x : Except ε α} {f : α → β} {e : ε}
    (h : (x >>= fun a => pure (f a)) = .error e) : x = .error e := by
  obtain h | ⟨a, -, h⟩ := bind_eq_error h
  · exact h
  · cases h

/-- A mapped failure is a failure. -/
theorem map_eq_error {f : α → β} {x : Except ε α} {e : ε} (h : x.map f = .error e) :
    x = .error e := by
  cases x with
  | error e' => exact congrArg _ (Except.error.inj h)
  | ok a => cases h

/-- The steps of a list went well if each one did. -/
theorem mapM_eq_ok {f : α → Except ε β} {as : List α} {bs : List β} (h : as.mapM f = .ok bs) :
    List.Forall₂ (fun a b => f a = .ok b) as bs := by
  induction as generalizing bs with
  | nil =>
    cases h
    exact .nil
  | cons a as ih =>
    rw [List.mapM_cons] at h
    obtain ⟨b, hb, h⟩ := bind_eq_ok h
    obtain ⟨cs, hcs, h⟩ := bind_eq_ok h
    cases h
    exact .cons hb (ih hcs)

/-- The steps of a list failed with the first of them that did. -/
theorem exists_first_of_mapM_eq_error {f : α → Except ε β} {as : List α} {e : ε}
    (h : as.mapM f = .error e) : ∃ before a after, as = before ++ a :: after ∧
      (∀ a ∈ before, ∃ b, f a = .ok b) ∧ f a = .error e := by
  induction as with
  | nil => cases h
  | cons a as ih =>
    rw [List.mapM_cons] at h
    obtain h | ⟨b, hb, h⟩ := bind_eq_error h
    · exact ⟨[], a, as, rfl, by simp, h⟩
    obtain h | ⟨bs, -, h⟩ := bind_eq_error h
    · obtain ⟨before, a', after, rfl, hbefore, he⟩ := ih h
      exact ⟨a :: before, a', after, rfl, List.forall_mem_cons.mpr ⟨⟨b, hb⟩, hbefore⟩, he⟩
    · cases h

/-- The steps of a list failed if one of them did. -/
theorem mapM_eq_error {f : α → Except ε β} {as : List α} {e : ε} (h : as.mapM f = .error e) :
    ∃ a ∈ as, f a = .error e := by
  obtain ⟨before, a, after, rfl, -, he⟩ := exists_first_of_mapM_eq_error h
  exact ⟨a, List.mem_append_right _ List.mem_cons_self, he⟩

/-- Steps that can be taken one by one can be taken for a list. -/
theorem exists_mapM_eq_ok {f : α → Except ε β} {as : List α} (h : ∀ a ∈ as, ∃ b, f a = .ok b) :
    ∃ bs, as.mapM f = .ok bs := by
  induction as with
  | nil => exact ⟨[], rfl⟩
  | cons a as ih =>
    obtain ⟨b, hb⟩ := h a List.mem_cons_self
    obtain ⟨bs, hbs⟩ := ih fun a ha => h a (List.mem_cons_of_mem _ ha)
    exact ⟨b :: bs, by rw [List.mapM_cons, hb, hbs]; rfl⟩

/-- Steps that undo others give the list back that these started from. -/
theorem mapM_map_eq_ok {f : β → Except ε α} {g : α → β} {as : List α}
    (h : ∀ a ∈ as, f (g a) = .ok a) : (as.map g).mapM f = .ok as := by
  induction as with
  | nil => rfl
  | cons a as ih =>
    rw [List.map_cons, List.mapM_cons, h a List.mem_cons_self,
      ih fun a ha => h a (List.mem_cons_of_mem _ ha)]
    rfl

/-- Steps over a list failed if one of them did behind others that went well. -/
theorem foldlM_eq_error {f : α → β → Except ε α} {bs : List β} {a : α} {e : ε}
    (h : bs.foldlM f a = .error e) :
    ∃ before b after a', bs = before ++ b :: after ∧ before.foldlM f a = .ok a' ∧
      f a' b = .error e := by
  induction bs generalizing a with
  | nil => cases h
  | cons b bs ih =>
    rw [List.foldlM_cons] at h
    obtain hb | ⟨a', hb, h⟩ := bind_eq_error h
    · exact ⟨[], b, bs, a, rfl, rfl, hb⟩
    · obtain ⟨before, c, after, a'', rfl, hbefore, hc⟩ := ih h
      exact ⟨b :: before, c, after, a'', rfl, by rw [List.foldlM_cons, hb]; exact hbefore, hc⟩

/-- Steps over a list in two parts. -/
theorem foldlM_append_eq_ok {f : α → β → Except ε α} {bs cs : List β} {a a' : α}
    (h : (bs ++ cs).foldlM f a = .ok a') :
    ∃ b, bs.foldlM f a = .ok b ∧ cs.foldlM f b = .ok a' := by
  rw [List.foldlM_append] at h
  exact bind_eq_ok h

/-! ## Lists side by side -/

variable {R : α → β → Prop} {as : List α} {bs : List β}

/-- Both lists are empty or none is. -/
theorem isEmpty_eq_of_forall₂ (h : List.Forall₂ R as bs) : as.isEmpty = bs.isEmpty := by
  cases h <;> rfl

/-- Every element on the left has a partner. -/
theorem exists_of_mem_left (h : List.Forall₂ R as bs) {a : α} (ha : a ∈ as) : ∃ b ∈ bs, R a b := by
  induction h with
  | nil => cases ha
  | cons hr _ ih =>
    obtain rfl | ha := List.mem_cons.mp ha
    · exact ⟨_, List.mem_cons_self, hr⟩
    · obtain ⟨b, hb, hr⟩ := ih ha
      exact ⟨b, List.mem_cons_of_mem _ hb, hr⟩

/-- Every element on the right has a partner. -/
theorem exists_of_mem_right (h : List.Forall₂ R as bs) {b : β} (hb : b ∈ bs) :
    ∃ a ∈ as, R a b := by
  obtain ⟨a, ha, hr⟩ := exists_of_mem_left h.flip hb
  exact ⟨a, ha, hr⟩

/-- Lists side by side are related by what follows for their elements. -/
theorem forall₂_imp_of_mem {T : α → β → Prop} (h : List.Forall₂ R as bs)
    (step : ∀ a ∈ as, ∀ b, R a b → T a b) : List.Forall₂ T as bs := by
  induction h with
  | nil => exact .nil
  | cons hr _ ih =>
    exact .cons (step _ List.mem_cons_self _ hr)
      (ih fun a ha => step a (List.mem_cons_of_mem _ ha))

/-- Lists whose items have the same images in pairs. -/
theorem map_eq_map_of_forall₂ {γ : Type} {f : α → γ} {g : β → γ}
    (h : List.Forall₂ (fun a b => g b = f a) as bs) : bs.map g = as.map f := by
  induction h with
  | nil => rfl
  | cons hhead _ ih => rw [List.map_cons, List.map_cons, hhead, ih]

/-- Two relations of lists side by side, one after the other. -/
theorem forall₂_comp {γ : Type} {S : β → γ → Prop} {cs : List γ} (h : List.Forall₂ R as bs)
    (h' : List.Forall₂ S bs cs) : List.Forall₂ (fun a c => ∃ b, R a b ∧ S b c) as cs := by
  induction h generalizing cs with
  | nil =>
    cases h'
    exact .nil
  | cons hr _ ih =>
    obtain _ | ⟨hs, h'⟩ := h'
    exact .cons ⟨_, hr, hs⟩ (ih h')

/-- If related elements have related partners only, so have related lists. -/
theorem forall₂_partners {α' β' : Type} {R' : α' → β' → Prop} {S : α → α' → Prop}
    {T : β → β' → Prop} {as' : List α'} {bs' : List β'} (h : List.Forall₂ R as bs)
    (h' : List.Forall₂ R' as' bs') (hS : List.Forall₂ S as as')
    (step : ∀ a ∈ as, ∀ a' b b', S a a' → R a b → R' a' b' → T b b') : List.Forall₂ T bs bs' := by
  induction h generalizing as' bs' with
  | nil =>
    cases hS
    cases h'
    exact .nil
  | cons hr _ ih =>
    obtain _ | ⟨hs, hS⟩ := hS
    obtain _ | ⟨hr', h'⟩ := h'
    exact .cons (step _ List.mem_cons_self _ _ _ hs hr hr')
      (ih h' hS fun a ha => step a (List.mem_cons_of_mem _ ha))

end Promptwright
