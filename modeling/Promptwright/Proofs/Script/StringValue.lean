import Promptwright.Proofs.Script.Spelling

/-!
# The values of string literals

`stringUnits` reads what stands between the quotes of a script literal, of either kind, as scripts
do: with all escapes, those of old included, and with line continuations.  The value is a list of
UTF-16 code units, since escapes may name half of a surrogate pair.  Literals that are no literals
of the language, such as one with an escape that is cut off, have no value.

A bare apostrophe in place of an escaped one changes no value, whatever stands before it.

## Key results

- `unitsFrom_apostrophe`: an escaped apostrophe is read as a bare one
- `Unescaped.stringUnits_eq`: the value does not change when apostrophes are unescaped
-/

namespace Promptwright.Script

/-! ## Reading -/

/-- The UTF-16 code units of a code point. -/
def codeUnits (n : Nat) : List Nat :=
  if n < 0x10000 then [n]
  else [0xd800 + (n - 0x10000) / 0x400, 0xdc00 + (n - 0x10000) % 0x400]

/-- The value of a hexadecimal digit in either case. -/
def hexDigit? (c : Char) : Option Nat := hexValue c.toLower

/-- The value of an octal digit. -/
def octalDigit? (c : Char) : Option Nat := (List.range 8).find? fun i => Nat.digitChar i == c

/-- The code unit that a letter stands for behind a backslash. -/
def letterUnit? : Char → Option Nat
  | 'b' => some 8
  | 't' => some 9
  | 'n' => some 10
  | 'v' => some 11
  | 'f' => some 12
  | 'r' => some 13
  | _ => none

/-- How much of an escape has been read. -/
inductive Escape
  | none
  | backslash
  /-- The value of some hexadecimal digits, and the number of those that have to follow. -/
  | hex (left value : Nat)
  | unicode
  /-- The value of the digits behind an opening brace, if there are any. -/
  | braced (value : Option Nat)
  /-- The value of some octal digits, and the number of those that may follow. -/
  | octal (left value : Nat)
  /-- A line continuation, to which a line feed may belong. -/
  | carriageReturn
deriving DecidableEq, Repr

namespace Escape

/-- Reads a character that belongs to no escape before it. -/
def stepPlain (c : Char) : Option (List Nat × Escape) :=
  if c = '\\' then some ([], .backslash)
  else if c = '\n' ∨ c = '\r' then Option.none
  else some (codeUnits c.toNat, .none)

/-- Reads the character behind a backslash. -/
def stepBackslash (c : Char) : List Nat × Escape :=
  if c = 'x' then ([], .hex 2 0)
  else if c = 'u' then ([], .unicode)
  else if c = '\r' then ([], .carriageReturn)
  else if c = '\n' ∨ c.toNat = 0x2028 ∨ c.toNat = 0x2029 then ([], .none)
  else
    match octalDigit? c with
    | some d => ([], .octal (if d ≤ 3 then 2 else 1) d)
    | Option.none =>
      match letterUnit? c with
      | some u => ([u], .none)
      | Option.none => (codeUnits c.toNat, .none)

/-- Reads a character: the code units that are complete, and how much of an escape has been
read then.  There is no result where the literal is none of the language. -/
def step : Escape → Char → Option (List Nat × Escape)
  | .none, c => stepPlain c
  | .backslash, c => some (stepBackslash c)
  | .hex left value, c =>
    (hexDigit? c).map fun d =>
      if left ≤ 1 then ([16 * value + d], .none) else ([], .hex (left - 1) (16 * value + d))
  | .unicode, c =>
    if c = '{' then some ([], .braced Option.none)
    else (hexDigit? c).map fun d => ([], .hex 3 d)
  | .braced value, c =>
    if c = '}' then value.map fun v => (codeUnits v, .none)
    else
      (hexDigit? c).bind fun d =>
        let v := 16 * value.getD 0 + d
        if v ≤ 0x10ffff then some ([], .braced (some v)) else Option.none
  | .octal left value, c =>
    match octalDigit? c with
    | some d =>
      if left ≤ 1 then some ([8 * value + d], .none) else some ([], .octal (left - 1) (8 * value + d))
    | Option.none => (stepPlain c).map fun r => (value :: r.1, r.2)
  | .carriageReturn, c => if c = '\n' then some ([], .none) else stepPlain c

/-- The code units that are complete when the literal ends. -/
def finish : Escape → Option (List Nat)
  | .none => some []
  | .octal _ value => some [value]
  | .carriageReturn => some []
  | _ => Option.none

end Escape

/-- The code units of a literal from some character on. -/
def unitsFrom : Escape → List Char → Option (List Nat)
  | e, [] => e.finish
  | e, c :: cs => (e.step c).bind fun r => (unitsFrom r.2 cs).map (r.1 ++ ·)

/-- The code units of the value of a literal, given what stands between its quotes. -/
def stringUnits (body : List Char) : Option (List Nat) := unitsFrom .none body

example : stringUnits ['\\', '1', '2', '\'', '\\', 'u', '{', '1', 'F', '6', '0', '0', '}'] =
    some [10, 39, 0xd83d, 0xde00] := by decide

/-! ## Apostrophes -/

/-- What an apostrophe is read as, in no escape and behind a backslash. -/
theorem step_apostrophe : Escape.stepPlain '\'' = some ([39], .none) ∧
    Escape.stepBackslash '\'' = ([39], .none) := by decide

/-- Neither the apostrophe nor the backslash goes on with an escape. -/
theorem digit?_eq_none {c : Char} (h : c = '\\' ∨ c = '\'') :
    hexDigit? c = none ∧ octalDigit? c = none ∧ c ≠ '{' ∧ c ≠ '}' ∧ c ≠ '\n' := by
  obtain rfl | rfl := h <;> decide

/-- An apostrophe is read in the same way with a backslash before it and without one. -/
theorem unitsFrom_apostrophe {e : Escape} (h : e ≠ .backslash) (cs : List Char) :
    unitsFrom e ('\\' :: '\'' :: cs) = unitsFrom e ('\'' :: cs) := by
  have hescaped : unitsFrom .backslash ('\'' :: cs) = (unitsFrom .none cs).map ([39] ++ ·) := by
    rw [unitsFrom, Escape.step, step_apostrophe.2]
    rfl
  have hbackslash : Escape.stepPlain '\\' = some ([], .backslash) := rfl
  obtain ⟨hhex, hoctal, hopen, hclose, hline⟩ := digit?_eq_none (c := '\\') (.inl rfl)
  obtain ⟨hhex', hoctal', hopen', hclose', hline'⟩ := digit?_eq_none (c := '\'') (.inr rfl)
  cases e with
  | backslash => exact absurd rfl h
  | none =>
    rw [unitsFrom, unitsFrom, Escape.step, Escape.step, hbackslash, step_apostrophe.1,
      Option.bind_some, Option.bind_some, hescaped]
    exact Option.map_id'
  -- an escape that is cut off has no value, whatever cuts it off
  | hex left value => simp [unitsFrom, Escape.step, hhex, hhex']
  | unicode => simp [unitsFrom, Escape.step, hhex, hhex']
  | braced value => simp [unitsFrom, Escape.step, hhex, hhex']
  -- otherwise it ends where the apostrophe or its backslash stands
  | octal left value =>
    rw [unitsFrom, unitsFrom, Escape.step, Escape.step, hoctal, hoctal', hbackslash,
      step_apostrophe.1]
    simp [hescaped, Option.map_map, Function.comp_def]
  | carriageReturn =>
    rw [unitsFrom, unitsFrom, Escape.step, Escape.step, if_neg hline, if_neg hline', hbackslash,
      step_apostrophe.1, Option.bind_some, Option.bind_some, hescaped]
    exact Option.map_id'

namespace Escape

variable {e e' : Escape} {c : Char} {us : List Nat}

/-- A backslash starts an escape if it is not escaped. -/
theorem eq_backslash_of_step (h : e.step '\\' = some (us, e')) (he : e ≠ .backslash) :
    e' = .backslash := by
  obtain ⟨hhex, hoctal, hopen, hclose, hline⟩ := digit?_eq_none (c := '\\') (.inl rfl)
  cases e with
  | none => cases h; rfl
  | backslash => exact absurd rfl he
  | hex left value => simp [step, hhex] at h
  | unicode => simp [step, hhex] at h
  | braced value => simp [step, hhex] at h
  | octal left value => cases h; rfl
  | carriageReturn => cases h; rfl

/-- A plain character other than the backslash starts no escape. -/
theorem eq_none_of_stepPlain (h : stepPlain c = some (us, e')) (hc : c ≠ '\\') : e' = .none := by
  rw [stepPlain, if_neg hc] at h
  split at h
  · cases h
  · cases h
    rfl

/-- An escaped character starts no other escape. -/
theorem ne_backslash_of_step_backslash (h : step .backslash c = some (us, e')) :
    e' ≠ .backslash := by
  obtain rfl : (stepBackslash c).2 = e' := congrArg Prod.snd (Option.some.inj h)
  unfold stepBackslash
  repeat' split
  all_goals nofun

/-- Behind a character other than the backslash, no escape starts. -/
theorem ne_backslash_of_step (h : e.step c = some (us, e')) (hc : c ≠ '\\') : e' ≠ .backslash := by
  -- by the state: an escape that goes on is past its backslash
  cases e with
  | none => simp [eq_none_of_stepPlain h hc]
  | backslash => exact ne_backslash_of_step_backslash h
  | hex left value =>
    obtain ⟨d, -, hd⟩ := Option.map_eq_some_iff.mp h
    split at hd <;> (cases hd; nofun)
  | unicode =>
    rw [step] at h
    split at h
    · cases h
      nofun
    · obtain ⟨d, -, hd⟩ := Option.map_eq_some_iff.mp h
      cases hd
      nofun
  | braced value =>
    rw [step] at h
    split at h
    · obtain ⟨v, -, hv⟩ := Option.map_eq_some_iff.mp h
      cases hv
      nofun
    · obtain ⟨d, -, hd⟩ := Option.bind_eq_some_iff.mp h
      dsimp only at hd
      split at hd
      · cases hd
        nofun
      · cases hd
  | octal left value =>
    rw [step] at h
    split at h
    · split at h <;> (cases h; nofun)
    · obtain ⟨r, hr, hd⟩ := Option.map_eq_some_iff.mp h
      cases hd
      simp [eq_none_of_stepPlain hr hc]
  | carriageReturn =>
    rw [step] at h
    split at h
    · cases h
      nofun
    · simp [eq_none_of_stepPlain h hc]

end Escape

/-- What stands between quotes and the same with a bare apostrophe for every escaped one.  A
backslash belongs to the character behind it. -/
inductive Unescaped : List Char → List Char → Prop
  | nil : Unescaped [] []
  | apostrophe {b b' : List Char} (h : Unescaped b b') : Unescaped ('\\' :: '\'' :: b) ('\'' :: b')
  | pair {c : Char} {b b' : List Char} (hc : c ≠ '\'') (h : Unescaped b b') :
      Unescaped ('\\' :: c :: b) ('\\' :: c :: b')
  | plain {c : Char} {b b' : List Char} (hc : c ≠ '\\') (h : Unescaped b b') :
      Unescaped (c :: b) (c :: b')

/-- A literal is read in the same way from a character that is read in the same way. -/
theorem unitsFrom_cons_congr {e : Escape} {c : Char} {cs ds : List Char}
    (h : ∀ us e', e.step c = some (us, e') → unitsFrom e' cs = unitsFrom e' ds) :
    unitsFrom e (c :: cs) = unitsFrom e (c :: ds) := by
  rw [unitsFrom, unitsFrom]
  cases hstep : e.step c with
  | none => rfl
  | some r => rw [Option.bind_some, Option.bind_some, h r.1 r.2 hstep]

/-- Unescaping apostrophes does not change how a literal is read. -/
theorem Unescaped.unitsFrom_eq {b b' : List Char} (h : Unescaped b b') {e : Escape}
    (he : e ≠ .backslash) : unitsFrom e b = unitsFrom e b' := by
  induction h generalizing e with
  | nil => rfl
  | apostrophe _ ih =>
    rw [unitsFrom_apostrophe he]
    exact unitsFrom_cons_congr fun us e' hstep =>
      ih (Escape.ne_backslash_of_step hstep (by decide))
  | pair _ _ ih =>
    -- the character behind the backslash is escaped by it, whatever stood before
    refine unitsFrom_cons_congr fun us e' hstep => ?_
    obtain rfl := Escape.eq_backslash_of_step hstep he
    exact unitsFrom_cons_congr fun us' e'' hstep' =>
      ih (Escape.ne_backslash_of_step_backslash hstep')
  | plain hc _ ih =>
    exact unitsFrom_cons_congr fun us e' hstep => ih (Escape.ne_backslash_of_step hstep hc)

/-- Unescaping apostrophes does not change the value of a literal. -/
theorem Unescaped.stringUnits_eq {b b' : List Char} (h : Unescaped b b') :
    stringUnits b = stringUnits b' :=
  h.unitsFrom_eq nofun

end Promptwright.Script
