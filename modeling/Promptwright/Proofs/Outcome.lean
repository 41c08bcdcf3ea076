import Mathlib.Data.List.Forall2
import Mathlib.Data.List.Perm.Basic

/-!
# Results side by side

Two results match if both are values that are related, or both are errors that are related.  Results
of steps match if the steps take matching results to matching results, so a relation of inputs is
carried through a whole computation.

## Key results

- `Both`: results that match
- `Both.bind`, `Both.mapM`, `Both.foldlM`: sequences of steps
- `agree_foldlM_perm`: steps in another order
-/

namespace Promptwright

variable {ε ε' α β γ δ : Type}

/-- Two results that are both values, which `R` relates, or both errors, which `E` relates. -/
inductive Both (E : ε → ε' → Prop) (R : α → β → Prop) : Except ε α → Except ε' β → Prop
  | ok {a : α} {b : β} (h : R a b) : Both E R (.ok a) (.ok b)
  | error {e : ε} {e' : ε'} (h : E e e') : Both E R (.error e) (.error e')

/-- Two results that are both values, which `R` relates, or both errors. -/
abbrev Agree (R : α → β → Prop) : Except ε α → Except ε' β → Prop := Both (fun _ _ => True) R

namespace Both

variable {E : ε → ε' → Prop} {R : α → β → Prop} {S : γ → δ → Prop}

/-! ## One step -/

/-- Results that are equal match. -/
theorem refl {E : ε → ε → Prop} {R : α → α → Prop} (hE : ∀ e, E e e) (hR : ∀ a, R a a)
    (x : Except ε α) : Both E R x x := by
  cases x with
  | ok a => exact .ok (hR a)
  | error e => exact .error (hE e)

/-- Results that match in every respect are equal. -/
theorem eq {x y : Except ε α} (h : Both Eq Eq x y) : x = y := by
  cases h with
  | ok h => rw [h]
  | error h => rw [h]

/-- Values that match match in another way if that follows for those that are there. -/
theorem imp_of_eq_ok {x : Except ε α} {y : Except ε' β} {S : α → β → Prop} (h : Both E R x y)
    (himp : ∀ a b, x = .ok a → R a b → S a b) : Both E S x y := by
  cases h with
  | ok h => exact .ok (himp _ _ rfl h)
  | error h => exact .error h

/-- Matching results are followed by matching results. -/
theorem bind {x : Except ε α} {y : Except ε' β} {f : α → Except ε γ} {g : β → Except ε' δ}
    (h : Both E R x y) (hstep : ∀ a b, R a b → Both E S (f a) (g b)) :
    Both E S (x >>= f) (y >>= g) := by
  cases h with
  | ok h => exact hstep _ _ h
  | error h => exact .error h

/-- Matching results are mapped to matching results. -/
theorem map {x : Except ε α} {y : Except ε' β} {f : α → γ} {g : β → δ} (h : Both E R x y)
    (hstep : ∀ a b, R a b → S (f a) (g b)) : Both E S (f <$> x) (g <$> y) := by
  cases h with
  | ok h => exact .ok (hstep _ _ h)
  | error h => exact .error h

/-- Errors that match are mapped to errors that match. -/
theorem mapError {ζ ζ' : Type} {E' : ζ → ζ' → Prop} {x : Except ε α} {y : Except ε' β} {f : ε → ζ}
    {g : ε' → ζ'} (h : Both E R x y) (hstep : ∀ e e', E e e' → E' (f e) (g e')) :
    Both E' R (x.mapError f) (y.mapError g) := by
  cases h with
  | ok h => exact .ok h
  | error h => exact .error (hstep _ _ h)

/-! ## Many steps -/

/-- Steps over two lists, side by side. -/
theorem mapM {f : α → Except ε γ} {g : β → Except ε' δ} {as : List α} {bs : List β}
    (h : List.Forall₂ (fun a b => Both E S (f a) (g b)) as bs) :
    Both E (List.Forall₂ S) (as.mapM f) (bs.mapM g) := by
  induction h with
  | nil => exact .ok .nil
  | cons hstep _ ih =>
    rw [List.mapM_cons, List.mapM_cons]
    apply hstep.bind
    intro c d hcd
    apply ih.bind
    exact fun cs ds h => .ok (.cons hcd h)

/-- Steps over two lists with the same results. -/
theorem mapM_eq {f : α → Except ε γ} {g : β → Except ε γ} {as : List α} {bs : List β}
    (h : List.Forall₂ (fun a b => f a = g b) as bs) : as.mapM f = bs.mapM g := by
  induction h with
  | nil => rfl
  | cons hstep _ ih => rw [List.mapM_cons, List.mapM_cons, hstep, ih]

/-- Steps over one list, from states that are related. -/
theorem foldlM {f : α → γ → Except ε α} {g : β → γ → Except ε' β} {cs : List γ} {a : α} {b : β}
    (hstep : ∀ c a b, R a b → Both E R (f a c) (g b c)) (h : R a b) :
    Both E R (cs.foldlM f a) (cs.foldlM g b) := by
  induction cs generalizing a b with
  | nil => exact .ok h
  | cons c cs ih =>
    rw [List.foldlM_cons, List.foldlM_cons]
    exact (hstep c a b h).bind fun a' b' h' => ih h'

end Both

/-! ## Steps in another order -/

/-- Results agree if each one is a value where the other one is, and these values are related. -/
theorem agree_of_ok {R : α → β → Prop} {x : Except ε α} {y : Except ε' β}
    (h : ∀ a, x = .ok a → ∃ b, y = .ok b ∧ R a b) (h' : ∀ b, y = .ok b → ∃ a, x = .ok a) :
    Agree R x y := by
  cases x with
  | ok a =>
    obtain ⟨b, rfl, hab⟩ := h a rfl
    exact .ok hab
  | error e =>
    cases y with
    | error e' => exact .error trivial
    | ok b =>
      obtain ⟨a, ha⟩ := h' b rfl
      cases ha

/-- Where results agree, one is a value if the other one is. -/
theorem Agree.exists_eq_ok {R : α → β → Prop} {x : Except ε α} {y : Except ε' β} {a : α}
    (h : Agree R x y) (ha : x = .ok a) : ∃ b, y = .ok b ∧ R a b := by
  subst ha
  cases h with
  | ok h => exact ⟨_, rfl, h⟩

/-- Agreement can be turned around. -/
theorem Agree.flip {R : α → β → Prop} {S : β → α → Prop} {x : Except ε α} {y : Except ε' β}
    (h : Agree R x y) (hS : ∀ a b, R a b → S b a) : Agree S y x := by
  cases h with
  | ok h => exact .ok (hS _ _ h)
  | error _ => exact .error trivial

/-- Agreement is passed on. -/
theorem Agree.trans {R : α → α → Prop} (hR : ∀ a b c, R a b → R b c → R a c) {x y z : Except ε α}
    (hxy : Agree R x y) (hyz : Agree R y z) : Agree R x z := by
  cases hxy with
  | error _ =>
    cases hyz with
    | error _ => exact .error trivial
  | ok h =>
    cases hyz with
    | ok h' => exact .ok (hR _ _ _ h h')

/-- Steps that can be exchanged two by two can be taken in any order. -/
theorem agree_foldlM_perm {R : α → α → Prop} {f : α → β → Except ε α} {bs bs' : List β}
    (hrefl : ∀ a, R a a) (htrans : ∀ a b c, R a b → R b c → R a c)
    (hstep : ∀ b a a', R a a' → Agree R (f a b) (f a' b))
    (hswap : ∀ b b' a, Agree R (f a b >>= fun a' => f a' b') (f a b' >>= fun a' => f a' b))
    (h : bs.Perm bs') (a : α) : Agree R (bs.foldlM f a) (bs'.foldlM f a) := by
  -- the states differ by what `R` allows once two steps have been exchanged
  have hfold : ∀ (bs : List β) a a', R a a' → Agree R (bs.foldlM f a) (bs.foldlM f a') :=
    fun bs a a' h => Both.foldlM hstep h
  induction h generalizing a with
  | nil => exact .ok (hrefl a)
  | cons b _ ih =>
    rw [List.foldlM_cons, List.foldlM_cons]
    apply Both.bind (R := Eq) (Both.refl (fun _ => trivial) (fun _ => rfl) (f a b))
    rintro a' _ rfl
    exact ih a'
  | swap b b' bs =>
    -- behind the two steps the rest starts from related states
    simp only [List.foldlM_cons, ← bind_assoc]
    exact (hswap b' b a).bind (hfold bs)
  | trans _ _ ih ih' => exact (ih a).trans htrans (ih' a)

end Promptwright
