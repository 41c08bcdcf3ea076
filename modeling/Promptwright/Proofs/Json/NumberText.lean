import Promptwright.Json.Number
import Promptwright.Proofs.Binary64.Shortest
import Promptwright.Proofs.Text.Lines

/-!
# The text of a number tells the number

The text of a number is read back as a decimal, with its digits, its point and its exponent.  The
decimal is the one that was written, so floating numbers are told apart by what their shortest
decimals round to, and a point or an exponent tells them from whole numbers.

## Key results

- `written_layout`: how a decimal is written
- `value_read_layout`: a decimal is read back as it was written
- `text_injective`: different numbers have different texts
-/

namespace Promptwright

/-! ## Reading decimals -/

namespace Decimal

/-- The exponent at the end of a numeral, if there is one. -/
def readExponent : List Char → Int
  | 'e' :: '-' :: ds => -Nat.ofDigitChars 10 ds 0
  | 'e' :: '+' :: ds => Nat.ofDigitChars 10 ds 0
  | _ => 0

/-- The digits behind the point, if there is one, and what follows them. -/
def readFraction : List Char → List Char × List Char
  | '.' :: cs => (cs.takeWhile Char.isDigit, cs.dropWhile Char.isDigit)
  | cs => ([], cs)

/-- The decimal that a numeral without a sign stands for. -/
def read (cs : List Char) : Decimal :=
  let whole := cs.takeWhile Char.isDigit
  let (fraction, rest) := readFraction (cs.dropWhile Char.isDigit)
  ⟨Nat.ofDigitChars 10 (whole ++ fraction) 0, readExponent rest - fraction.length⟩

example : read "12.50e-3".toList = ⟨1250, -5⟩ := by decide

/-- Nothing follows but an exponent. -/
def AtExponent (rest : List Char) : Prop := ∀ c, rest.head? = some c → c = 'e'

/-- An exponent does not go on with digits. -/
theorem AtExponent.isDigit_eq_false {rest : List Char} (h : AtExponent rest) :
    ∀ c, rest.head? = some c → c.isDigit = false := by
  intro c hc
  rw [h c hc]
  decide

/-- A numeral without a point. -/
theorem read_whole {ds rest : List Char} (hds : ∀ c ∈ ds, c.isDigit = true)
    (hrest : AtExponent rest) :
    read (ds ++ rest) = ⟨Nat.ofDigitChars 10 ds 0, readExponent rest⟩ := by
  obtain ⟨htake, hdrop⟩ := Text.span_append hds hrest.isDigit_eq_false
  have hfraction : readFraction rest = ([], rest) := by
    rw [readFraction]
    rintro cs rfl
    exact absurd (hrest '.' rfl) (by decide)
  simp [read, htake, hdrop, hfraction]

/-- A numeral with a point. -/
theorem read_point {ds fs rest : List Char} (hds : ∀ c ∈ ds, c.isDigit = true)
    (hfs : ∀ c ∈ fs, c.isDigit = true) (hrest : AtExponent rest) :
    read (ds ++ '.' :: (fs ++ rest)) =
      ⟨Nat.ofDigitChars 10 (ds ++ fs) 0, readExponent rest - fs.length⟩ := by
  have hpoint : ∀ c, ('.' :: (fs ++ rest)).head? = some c → c.isDigit = false := by
    intro c hc
    rw [← Option.some.inj hc]
    decide
  obtain ⟨htake, hdrop⟩ := Text.span_append hds hpoint
  obtain ⟨hfraction, hend⟩ := Text.span_append hfs hrest.isDigit_eq_false
  simp [read, htake, hdrop, readFraction, hfraction, hend]

/-- The numerals of a decimal are digits. -/
theorem isDigit_of_mem_numerals {d : Decimal} {c : Char} (h : c ∈ d.numerals) :
    c.isDigit = true :=
  Nat.isDigit_of_mem_toDigits (by decide) (by decide) h

/-- The numerals of a decimal are read back. -/
theorem ofDigitChars_numerals (d : Decimal) : Nat.ofDigitChars 10 d.numerals 0 = d.digits :=
  Nat.ofDigitChars_toDigits (by decide) (by decide)

/-- Zeros are digits. -/
theorem isDigit_of_mem_zeros {n : Nat} {c : Char} (h : c ∈ List.replicate n '0') :
    c.isDigit = true := by
  rw [List.eq_of_mem_replicate h]
  decide

/-- The place of the point. -/
theorem pointPosition_eq (d : Decimal) : d.pointPosition = d.numerals.length + d.exponent := rfl

/-! ## The form of numerals -/

/-- An exponent with its sign, as JSON writes it. -/
def exponentText (k : Int) : List Char :=
  'e' :: (if k < 0 then '-' else '+') :: Nat.toDigits 10 k.natAbs

/-- The end of a numeral: an exponent or nothing. -/
def endText : Option Int → List Char
  | none => []
  | some k => exponentText k

/-- Digits that may stand in front of the point of a decimal. -/
structure Front (d : Decimal) (ds : List Char) : Prop where
  digits : ∀ c ∈ ds, c.isDigit = true
  ne_nil : ds ≠ []
  /-- No zero is put in front of other digits. -/
  head : ds = ['0'] ∨ ds.head? = d.numerals.head?

/-- How JSON writes a decimal: with a point between digits, or with all its digits in front of an
exponent. -/
inductive Written (d : Decimal) : List Char → Prop
  | point (ds fs : List Char) (exponent : Option Int) (hds : Front d ds)
      (hfs : ∀ c ∈ fs, c.isDigit = true) (hne : fs ≠ [])
      (hvalue : value ⟨Nat.ofDigitChars 10 (ds ++ fs) 0, exponent.getD 0 - fs.length⟩ = d.value) :
      Written d (ds ++ '.' :: (fs ++ endText exponent))
  | whole : Written d (d.numerals ++ exponentText d.exponent)

/-- The digits of a decimal may stand in front of its point. -/
theorem front_numerals (d : Decimal) : Front d d.numerals :=
  { digits := fun _ => isDigit_of_mem_numerals, ne_nil := Nat.toDigits_ne_nil, head := .inr rfl }

/-- A whole number, with zeros behind its digits and one more behind the point. -/
private theorem written_zeros {d : Decimal} (hk : 0 ≤ d.exponent) :
    Written d (d.numerals ++ List.replicate d.exponent.toNat '0' ++ ['.', '0']) := by
  have hds := front_numerals d
  refine .point _ ['0'] none ⟨?_, ?_, .inr ?_⟩ (List.forall_mem_singleton.mpr (by decide))
    (by decide) ?_
  · exact List.forall_mem_append.mpr ⟨hds.digits, fun c => isDigit_of_mem_zeros⟩
  · exact List.append_ne_nil_of_left_ne_nil hds.ne_nil _
  · exact List.head?_append_of_ne_nil _ hds.ne_nil
  · have hpow : (10 : ℚ) ^ d.exponent = 10 ^ d.exponent.toNat := by
      conv => lhs; rw [← Int.toNat_of_nonneg hk]
      exact zpow_natCast _ _
    rw [value, value, Nat.ofDigitChars_append, Nat.ofDigitChars_append, ofDigitChars_numerals,
      Nat.ofDigitChars_replicate_zero]
    simp [Nat.ofDigitChars_cons, hpow]
    field_simp

/-- A decimal with its point between its digits. -/
private theorem written_between {d : Decimal} (hk : d.exponent < 0) (hp : 0 < d.pointPosition) :
    Written d (d.numerals.take d.pointPosition.toNat ++
      '.' :: d.numerals.drop d.pointPosition.toNat) := by
  have hds := front_numerals d
  have hpoint := pointPosition_eq d
  have htake : d.numerals.take d.pointPosition.toNat ≠ [] := by
    rw [ne_eq, List.take_eq_nil_iff]
    exact not_or.mpr ⟨by omega, hds.ne_nil⟩
  have hdrop : d.numerals.drop d.pointPosition.toNat ≠ [] := by
    rw [ne_eq, List.drop_eq_nil_iff]
    omega
  rw [← List.append_nil (d.numerals.drop _)]
  refine .point _ _ none ⟨fun c hc => hds.digits c (List.mem_of_mem_take hc), htake, .inr ?_⟩
    (fun c hc => hds.digits c (List.mem_of_mem_drop hc)) hdrop ?_
  · rw [List.head?_take, if_neg (by omega)]
  · rw [List.take_append_drop, ofDigitChars_numerals, List.length_drop, Option.getD_none,
      show 0 - ((d.numerals.length - d.pointPosition.toNat : Nat) : Int) = d.exponent by omega]

/-- A decimal with zeros between the point and its digits. -/
private theorem written_behind {d : Decimal} (hp : d.pointPosition ≤ 0) :
    Written d ('0' :: '.' :: List.replicate (-d.pointPosition).toNat '0' ++ d.numerals) := by
  have hds := front_numerals d
  have hpoint := pointPosition_eq d
  have hwritten : Written d (['0'] ++
      '.' :: ((List.replicate (-d.pointPosition).toNat '0' ++ d.numerals) ++ endText none)) := by
    refine .point _ _ none ⟨List.forall_mem_singleton.mpr (by decide), by decide, .inl rfl⟩
      (List.forall_mem_append.mpr ⟨fun c => isDigit_of_mem_zeros, hds.digits⟩)
      (List.append_ne_nil_of_right_ne_nil _ hds.ne_nil) ?_
    have hzeros : Nat.ofDigitChars 10 (['0'] ++ (List.replicate (-d.pointPosition).toNat '0' ++
        d.numerals)) 0 = d.digits := by
      rw [Nat.ofDigitChars_append, Nat.ofDigitChars_append, Nat.ofDigitChars_replicate_zero,
        ← ofDigitChars_numerals d]
      rfl
    rw [hzeros, List.length_append, List.length_replicate, Option.getD_none,
      show 0 - (((-d.pointPosition).toNat + d.numerals.length : Nat) : Int) = d.exponent by omega]
  rwa [endText, List.append_nil] at hwritten

/-- A decimal without an exponent. -/
theorem written_positional (d : Decimal) : Written d (d.positional ['.', '0']) := by
  rw [positional]
  split
  next hk => exact written_zeros hk
  next hk =>
    split
    next hp => exact written_between (by omega) hp
    next hp => exact written_behind (by omega)

/-- A decimal with an exponent has its point behind the first digit, if there are more digits. -/
theorem written_layout (d : Decimal) : Written d (Json.Number.layout d) := by
  have hds := front_numerals d
  have hvalue := ofDigitChars_numerals d
  have hpoint := pointPosition_eq d
  rw [Json.Number.layout]
  split
  · exact written_positional d
  · split
    next hn => exact absurd hn Nat.toDigits_ne_nil
    next c hn =>
      have hk : d.pointPosition - 1 = d.exponent := by
        rw [hpoint, hn, List.length_singleton]
        omega
      rw [hk, ← hn]
      exact .whole
    next c cs hcs hn =>
      rw [hn] at hvalue hpoint
      have hdigits := hn ▸ hds.digits
      refine .point [c] cs (some (d.pointPosition - 1))
        ⟨fun b hb => hdigits b (List.mem_singleton.mp hb ▸ List.mem_cons_self), by simp,
          .inr (hn ▸ rfl)⟩ (fun b hb => hdigits b (List.mem_cons_of_mem _ hb)) hcs ?_
      -- the digits behind the point are taken off the exponent
      have hshift : d.pointPosition - 1 - cs.length = d.exponent := by
        rw [hpoint, List.length_cons]
        omega
      rw [List.singleton_append, hvalue, Option.getD_some, hshift]

/-- Nothing but an exponent ends a numeral. -/
theorem atExponent_endText (exponent : Option Int) : AtExponent (endText exponent) := by
  intro c hc
  cases exponent with
  | none => cases hc
  | some k => exact (Option.some.inj hc).symm

/-- An exponent is read back. -/
theorem readExponent_endText (exponent : Option Int) :
    readExponent (endText exponent) = exponent.getD 0 := by
  cases exponent with
  | none => rw [endText, readExponent] <;> simp
  | some k =>
    have hdigits : Nat.ofDigitChars 10 (Nat.toDigits 10 k.natAbs) 0 = k.natAbs :=
      Nat.ofDigitChars_toDigits (by decide) (by decide)
    rw [endText, exponentText, Option.getD_some]
    split
    · rw [readExponent, hdigits]
      omega
    · rw [readExponent, hdigits]
      omega

/-! ## Reading back -/

/-- What is written for a decimal is read back. -/
theorem Written.value_read {d : Decimal} {cs : List Char} (h : Written d cs) :
    (read cs).value = d.value := by
  cases h with
  | point ds fs exponent hds hfs hne hvalue =>
    rw [read_point hds.digits hfs (atExponent_endText exponent), readExponent_endText]
    exact hvalue
  | whole =>
    have hend := atExponent_endText (some d.exponent)
    have hexp := readExponent_endText (some d.exponent)
    rw [endText] at hend hexp
    rw [read_whole (front_numerals d).digits hend, hexp, ofDigitChars_numerals, Option.getD_some]

/-- What is written for a decimal has a point or an exponent. -/
theorem Written.mark_mem {d : Decimal} {cs : List Char} (h : Written d cs) :
    '.' ∈ cs ∨ 'e' ∈ cs := by
  cases h with
  | point => exact .inl (by simp)
  | whole => exact .inr (by simp [exponentText])

/-- A decimal is read back as JSON writes it. -/
theorem value_read_layout (d : Decimal) : (read (Json.Number.layout d)).value = d.value :=
  (written_layout d).value_read

end Decimal

/-! ## Signs -/

/-- The sign in front of a numeral. -/
def signText (negative : Bool) : List Char := if negative then ['-'] else []

/-- Digits and what follows them. -/
def StartsWithDigit (cs : List Char) : Prop := ∃ c, cs.head? = some c ∧ c.isDigit = true

/-- A sign is told from the digits behind it. -/
theorem signText_injective {b b' : Bool} {cs cs' : List Char} (hcs : StartsWithDigit cs)
    (hcs' : StartsWithDigit cs') (h : signText b ++ cs = signText b' ++ cs') :
    b = b' ∧ cs = cs' := by
  have hminus : ∀ {ds es}, StartsWithDigit ds → ds ≠ '-' :: es := by
    rintro ds es ⟨c, hc, hdigit⟩ rfl
    cases Option.some.inj hc
    exact absurd hdigit (by decide)
  cases b <;> cases b'
  · exact ⟨rfl, h⟩
  · exact absurd h (hminus hcs)
  · exact absurd h.symm (hminus hcs')
  · exact ⟨rfl, List.append_cancel_left h⟩

/-- The digits of a number start with a digit. -/
theorem startsWithDigit_toDigits (n : Nat) : StartsWithDigit (Nat.toDigits 10 n) := by
  cases hn : Nat.toDigits 10 n with
  | nil => exact absurd hn Nat.toDigits_ne_nil
  | cons c cs =>
    exact ⟨c, rfl, Nat.isDigit_of_mem_toDigits (by decide) (by decide)
      (hn ▸ List.mem_cons_self)⟩

/-- What is written for a decimal starts with a digit. -/
theorem Decimal.Written.startsWithDigit {d : Decimal} {cs : List Char} (h : d.Written cs) :
    StartsWithDigit cs := by
  have hlead : ∀ {ds rest}, d.Front ds → StartsWithDigit (ds ++ rest) := by
    intro ds rest hds
    obtain ⟨c, cs, rfl⟩ := List.exists_cons_of_ne_nil hds.ne_nil
    exact ⟨c, rfl, hds.digits c List.mem_cons_self⟩
  cases h with
  | point ds fs exponent hds => exact hlead hds
  | whole => exact hlead d.front_numerals

/-- Different numbers have different digits. -/
theorem toDigits_injective {n n' : Nat} (h : Nat.toDigits 10 n = Nat.toDigits 10 n') : n = n' := by
  have hread := congrArg (Nat.ofDigitChars 10 · 0) h
  rwa [Nat.ofDigitChars_ten_toDigits, Nat.ofDigitChars_ten_toDigits] at hread

/-! ## Numbers -/

namespace Binary64

/-- A finite number in the form that all numbers of the format have. -/
def Proper : Binary64 → Prop
  | .finite _ m e => Representable m e
  | _ => False

variable {m m' : Nat} {e e' : Int}

/-- The text of a finite number without its sign. -/
def magnitude (m : Nat) (e : Int) : List Char :=
  if m = 0 then ['0', '.', '0'] else Json.Number.layout (shortest .even m e)

/-- The text of a finite number. -/
theorem toList_floatText (negative : Bool) (m : Nat) (e : Int) :
    (Json.Number.floatText (.finite negative m e)).toList =
      signText negative ++ magnitude m e := by
  have hmagnitude : (if m = 0 then "0.0"
      else String.ofList (Json.Number.layout (shortest .even m e))).toList = magnitude m e := by
    rw [magnitude]
    split
    · rfl
    · exact String.toList_ofList
  cases negative with
  | true => simp [Json.Number.floatText, signText, hmagnitude]
  | false => simp [Json.Number.floatText, signText, hmagnitude]

/-- Without its sign, a number starts with a digit. -/
theorem startsWithDigit_magnitude (m : Nat) (e : Int) : StartsWithDigit (magnitude m e) := by
  rw [magnitude]
  split
  · exact ⟨'0', rfl, by decide⟩
  · exact (Decimal.written_layout _).startsWithDigit

/-- A finite number has a point or an exponent. -/
theorem mark_mem_magnitude (m : Nat) (e : Int) : '.' ∈ magnitude m e ∨ 'e' ∈ magnitude m e := by
  rw [magnitude]
  split
  · exact .inl (by decide)
  · exact (Decimal.written_layout _).mark_mem

/-- Without their signs, different numbers have different texts. -/
theorem magnitude_injective (hm : Representable m e) (hm' : Representable m' e')
    (h : magnitude m e = magnitude m' e') : m = m' ∧ e = e' := by
  have hvalue := congrArg (fun cs => (Decimal.read cs).value) h
  have hzero : (Decimal.read ['0', '.', '0']).value = 0 := by
    have hread : Decimal.read ['0', '.', '0'] = ⟨0, -1⟩ := by decide
    rw [hread, Decimal.value, Nat.cast_zero, zero_mul]
  have hpositive : ∀ {m e}, Representable m e → m ≠ 0 →
      0 < (Decimal.read (Json.Number.layout (shortest .even m e))).value := by
    intro m e hm hne
    rw [Decimal.value_read_layout]
    exact (roundsTo_shortest .even hm (Nat.pos_of_ne_zero hne)).pos (Nat.pos_of_ne_zero hne)
  simp only [magnitude] at hvalue
  split at hvalue
  next hz =>
    split at hvalue
    next hz' =>
      -- both are zero
      have hmin := hm.normal
      have hmin' := hm'.normal
      rw [hiddenBit] at hmin hmin'
      omega
    next hne' =>
      have := hpositive hm' hne'
      rw [← hvalue, hzero] at this
      exact absurd this (lt_irrefl 0)
  next hne =>
    split at hvalue
    next hz' =>
      have := hpositive hm hne
      rw [hvalue, hzero] at this
      exact absurd this (lt_irrefl 0)
    next hne' =>
      rw [Decimal.value_read_layout, Decimal.value_read_layout] at hvalue
      have hround := roundsTo_shortest .even hm (Nat.pos_of_ne_zero hne)
      have hround' := roundsTo_shortest .even hm' (Nat.pos_of_ne_zero hne')
      rw [← hvalue] at hround'
      exact eq_of_roundsTo hround hround' hm hm'

end Binary64

namespace Json.Number

/-- A whole number, or a floating one that is finite and in the form of its format. -/
def Proper : Number → Prop
  | .integer _ => True
  | .float x => x.Proper

/-- The text of a whole number. -/
theorem toList_integer (n : Int) : (Number.integer n).text.toList =
    signText (decide (n < 0)) ++ Nat.toDigits 10 n.natAbs := by
  rw [text, Int.toString_eq_repr, Int.repr_eq_if, signText]
  split
  next h =>
    have hnat : n.toNat = n.natAbs := by omega
    rw [if_neg (by simpa using h), hnat, Nat.repr_eq_ofList_toDigits, String.toList_ofList]
    rfl
  next h =>
    have hnat : (-n).toNat = n.natAbs := by omega
    rw [if_pos (by simpa using h), hnat, Nat.repr_eq_ofList_toDigits, String.toList_append,
      String.toList_ofList, String.toList_ofList]

/-- A whole number has neither a point nor an exponent. -/
theorem mark_not_mem_integer {n : Int} {c : Char} (h : c ∈ (Number.integer n).text.toList) :
    c ≠ '.' ∧ c ≠ 'e' := by
  have hdigit : c = '-' ∨ c.isDigit = true := by
    rw [toList_integer, signText] at h
    obtain h | h := List.mem_append.mp h
    · split at h
      · exact .inl (List.mem_singleton.mp h)
      · cases h
    · exact .inr (Nat.isDigit_of_mem_toDigits (by decide) (by decide) h)
  obtain rfl | hdigit := hdigit
  · decide
  · constructor
    · rintro rfl
      exact absurd hdigit (by decide)
    · rintro rfl
      exact absurd hdigit (by decide)

/-- A floating number has a point or an exponent. -/
theorem integer_ne_float {n : Int} {x : Binary64} (hx : x.Proper) :
    (Number.integer n).text ≠ (Number.float x).text := by
  intro h
  obtain ⟨negative, m, e⟩ | _ | _ := x
  · have hmark : ∀ c ∈ Binary64.magnitude m e, c ≠ '.' ∧ c ≠ 'e' := by
      intro c hc
      refine mark_not_mem_integer (n := n) ?_
      rw [h, text, Binary64.toList_floatText]
      exact List.mem_append_right _ hc
    obtain hpoint | hexp := Binary64.mark_mem_magnitude m e
    · exact (hmark _ hpoint).1 rfl
    · exact (hmark _ hexp).2 rfl
  · exact hx
  · exact hx

/-- Different floating numbers have different texts. -/
theorem floatText_injective {x y : Binary64} (hx : x.Proper) (hy : y.Proper)
    (h : floatText x = floatText y) : x = y := by
  obtain ⟨negative, m, e⟩ | _ | _ := x
  · obtain ⟨negative', m', e'⟩ | _ | _ := y
    · have hlist := congrArg String.toList h
      rw [Binary64.toList_floatText, Binary64.toList_floatText] at hlist
      obtain ⟨rfl, hmagnitude⟩ := signText_injective (Binary64.startsWithDigit_magnitude m e)
        (Binary64.startsWithDigit_magnitude m' e') hlist
      obtain ⟨rfl, rfl⟩ := Binary64.magnitude_injective hx hy hmagnitude
      rfl
    · cases hy
    · cases hy
  · cases hx
  · cases hx

/-- Different numbers have different texts. -/
theorem text_injective {n n' : Number} (hn : n.Proper) (hn' : n'.Proper)
    (h : n.text = n'.text) : n = n' := by
  cases n with
  | integer n =>
    cases n' with
    | integer n' =>
      -- sign and digits can be told apart, as digits start with no sign
      have hlist := congrArg String.toList h
      rw [toList_integer, toList_integer] at hlist
      obtain ⟨hsign, hdigits⟩ := signText_injective (startsWithDigit_toDigits _)
        (startsWithDigit_toDigits _) hlist
      have habs := toDigits_injective hdigits
      rw [decide_eq_decide] at hsign
      have heq : n = n' := by omega
      rw [heq]
    | float x => exact absurd h (integer_ne_float hn')
  | float x =>
    cases n' with
    | integer n' => exact absurd h.symm (integer_ne_float hn)
    | float y => rw [floatText_injective hn hn' h]

end Json.Number

end Promptwright
