import Promptwright.Proofs.Script.Pieces

/-!
# Telling texts apart

A script is put together from parts.  Two scripts are told apart part by part, from the first to
the last: `Told t u P` says that wherever a script goes on with `t` and another one with `u`, the
two can only be equal if `P` holds and if what follows is equal, too.  What a part is made from
is known in this way, whatever follows it.

Words are told apart only together with what follows them, which is what `ToldWord` is for.

## Key results

- `Told.append`: parts in a row
- `Told.differ`, `Told.literal`, `Told.statement`: parts that are known from their start, literals,
  and statements up to their semicolons
- `ToldWord.append`: a word and what follows it
- `Told.optional`: parts that may be missing
-/

namespace Promptwright.Script

/-- Equal texts that go on with `t` and with `u` show that something holds, and go on equally. -/
def Told (t u : String) (P : Prop) : Prop := ∀ r s : String, t ++ r = u ++ s → P ∧ r = s

/-- A text starts with some characters. -/
def Starts (cs : List Char) (t : String) : Prop := cs <+: t.toList

/-- A text that is given starts with its first characters. -/
theorem Starts.given {cs ds : List Char} (h : cs <+: ds) : Starts cs (String.ofList ds) := by
  rwa [Starts, String.toList_ofList]

/-- What follows a text does not matter to its start. -/
theorem Starts.append {cs : List Char} {t : String} (h : Starts cs t) (u : String) :
    Starts cs (t ++ u) := by
  rw [Starts, String.toList_append]
  exact h.trans (List.prefix_append _ _)

namespace Told

variable {t t' u u' : String} {P Q : Prop}

/-- Equal texts show that something holds. -/
theorem elim (h : Told t u P) (heq : t = u) : P := (h "" "" (by rw [heq])).1

/-- What follows from what is shown is shown, too. -/
theorem mono (h : Told t u P) (himp : P → Q) : Told t u Q := fun r s heq =>
  ⟨himp (h r s heq).1, (h r s heq).2⟩

/-- It does not matter which text comes first. -/
theorem symm (h : Told t u P) : Told u t P := by
  intro r s heq
  obtain ⟨hP, hrest⟩ := h s r heq.symm
  exact ⟨hP, hrest.symm⟩

/-- Equal parts show nothing. -/
theorem same (t : String) : Told t t True := fun _ _ heq =>
  ⟨trivial, (String.append_right_inj t).mp heq⟩

/-- Parts in a row.  The first ones may be known by the time that the second ones are looked at. -/
theorem append (h : Told t u P) (h' : P → Told t' u' Q) :
    Told (t ++ t') (u ++ u') (P ∧ Q) := by
  intro r s heq
  rw [String.append_assoc, String.append_assoc] at heq
  obtain ⟨hP, hrest⟩ := h _ _ heq
  obtain ⟨hQ, hrest⟩ := h' hP r s hrest
  exact ⟨⟨hP, hQ⟩, hrest⟩

/-- Behind parts that are never equal, anything may follow. -/
theorem never (h : Told t u False) (t' u' : String) : Told (t ++ t') (u ++ u') P :=
  (h.append (Q := P) fun hfalse => hfalse.elim).mono And.right

/-- Parts behind an equal part. -/
theorem after (start : String) (h : Told t u P) : Told (start ++ t) (start ++ u) P :=
  ((same start).append fun _ => h).mono And.right

/-- Parts before an equal part. -/
theorem before (h : Told t u P) (stop : String) : Told (t ++ stop) (u ++ stop) P :=
  (h.append fun _ => same stop).mono And.left

/-- Parts that start differently are not equal. -/
theorem differ {cs ds : List Char} (ht : Starts cs t) (hu : Starts ds u)
    (h : ¬cs <+: ds ∧ ¬ds <+: cs) : Told t u P := by
  intro r s heq
  have hcs : cs <+: (t ++ r).toList := by
    rw [String.toList_append]
    exact ht.trans (List.prefix_append _ _)
  have hds : ds <+: (u ++ s).toList := by
    rw [String.toList_append]
    exact hu.trans (List.prefix_append _ _)
  obtain hprefix | hprefix := List.prefix_or_prefix_of_prefix (heq ▸ hcs) hds
  · exact absurd hprefix h.1
  · exact absurd hprefix h.2

/-- Literals show what they stand for. -/
theorem literal {a b : String} (ha : Literal t a) (hb : Literal u b) : Told t u (a = b) := by
  obtain ⟨body, ht, hspells⟩ := ha
  obtain ⟨body', hu, hspells'⟩ := hb
  intro r s heq
  have hlex := congrArg (fun x => lexemesFrom .code x.toList) heq
  simp only [String.toList_append] at hlex
  rw [readAs_literal hspells.body.1 hspells.body.2 ht,
    readAs_literal hspells'.body.1 hspells'.body.2 hu] at hlex
  obtain rfl : body = body' := by simpa using (List.cons.inj hlex).1
  refine ⟨String.toList_inj.mp (hspells.unique hspells'), ?_⟩
  rw [String.toList_inj.mp (ht.trans hu.symm)] at heq
  exact (String.append_right_inj u).mp heq


/-- A text is known from its lexemes. -/
theorem eq_of_readAs {ls : List Lexeme} (ht : ReadAs t ls) (hu : ReadAs u ls) : t = u := by
  have hlist : lexemes t = lexemes u := ht.lexemes_eq.trans hu.lexemes_eq.symm
  have htext := congrArg (List.flatMap Lexeme.text) hlist
  rw [lexemes, lexemes, flatMap_text_lexemesFrom, flatMap_text_lexemesFrom] at htext
  exact String.toList_inj.mp htext

/-- What stands inside of a statement is known together with its end. -/
theorem statement {p q p' q' : List Bracket} (ht : Piece Lexeme.isInner p q t)
    (hu : Piece Lexeme.isInner p' q' u) : Told (t ++ ";") (u ++ ";") (t = u) := by
  obtain ⟨ls, hread, hinner, -⟩ := ht
  obtain ⟨ms, hread', hinner', -⟩ := hu
  intro r s heq
  -- both texts are read, and the first semicolon of code ends the statement in both
  have hlex := congrArg (fun x => lexemesFrom .code x.toList) heq
  simp only [String.toList_append, List.append_assoc] at hlex
  have hend : ∀ rest,
      lexemesFrom .code (";".toList ++ rest) = .code ';' :: lexemesFrom .code rest :=
    fun rest => lexemesFrom_isCode (by decide) rest
  have hhead : ∀ (rest : List Lexeme) (x : Lexeme), (Lexeme.code ';' :: rest).head? = some x →
      x.isInner = false := by
    intro rest x hx
    rw [← Option.some.inj hx]
    decide
  rw [hread, hread', hend, hend] at hlex
  obtain ⟨rfl, -⟩ := Text.append_inj_of_span hinner hinner' (hhead _) (hhead _) hlex
  obtain rfl := eq_of_readAs hread hread'
  exact ⟨rfl, (String.append_right_inj _).mp heq⟩

end Told

/-! ## Words -/

/-- A text that starts with something that does not stand in words. -/
def Stops (t : String) : Prop := ∃ c, t.toList.head? = some c ∧ isWord c = false

/-- A text that is given and starts in that way. -/
theorem stops_ofList {c : Char} {cs : List Char} (h : isWord c = false) (t : String) :
    Stops (String.ofList (c :: cs) ++ t) := by
  refine ⟨c, ?_, h⟩
  rw [String.toList_append, String.toList_ofList]
  rfl

/-- The first character of such a text does not stand in words. -/
theorem Stops.isWord_eq_false {t : String} (h : Stops t) :
    ∀ c, t.toList.head? = some c → isWord c = false := by
  obtain ⟨d, hd, hword⟩ := h
  intro c hc
  rw [hd, Option.some.injEq] at hc
  rwa [← hc]

/-- What follows such a text does not matter. -/
theorem Stops.append {t : String} (h : Stops t) (u : String) : Stops (t ++ u) := by
  obtain ⟨c, hc, hword⟩ := h
  refine ⟨c, ?_, hword⟩
  rw [String.toList_append, List.head?_append, hc, Option.some_or]

/-- The same as `Told`, if none of the words at the ends of the texts goes on. -/
def ToldWord (t u : String) (P : Prop) : Prop :=
  ∀ r s : String, Stops r → Stops s → t ++ r = u ++ s → P ∧ r = s

/-- What is told apart in any case. -/
theorem Told.toldWord {t u : String} {P : Prop} (h : Told t u P) : ToldWord t u P :=
  fun r s _ _ => h r s

namespace ToldWord

variable {t t' u u' : String} {P Q : Prop}

/-- Words are told apart. -/
theorem word (ht : WordText t) (hu : WordText u) : ToldWord t u (t = u) := by
  intro r s hr hs heq
  have hlist := congrArg String.toList heq
  rw [String.toList_append, String.toList_append] at hlist
  obtain ⟨hlist, hrest⟩ :=
    Text.append_inj_of_span ht hu hr.isWord_eq_false hs.isWord_eq_false hlist
  exact ⟨String.toList_inj.mp hlist, String.toList_inj.mp hrest⟩

/-- What follows from what is shown is shown, too. -/
theorem mono (h : ToldWord t u P) (himp : P → Q) : ToldWord t u Q := fun r s hr hs heq =>
  ⟨himp (h r s hr hs heq).1, (h r s hr hs heq).2⟩

/-- A word and what follows it. -/
theorem append (h : ToldWord t u P) (ht' : Stops t') (hu' : Stops u') (h' : P → Told t' u' Q) :
    Told (t ++ t') (u ++ u') (P ∧ Q) := by
  intro r s heq
  rw [String.append_assoc, String.append_assoc] at heq
  obtain ⟨hP, hrest⟩ := h _ _ (ht'.append r) (hu'.append s) heq
  obtain ⟨hQ, hrest⟩ := h' hP r s hrest
  exact ⟨⟨hP, hQ⟩, hrest⟩

end ToldWord

/-! ## Parts that may be missing -/

/-- A part that may be missing.  If it is there, it starts with its key. -/
def OptionalPart (key : List Char) (missing : Prop) (t : String) : Prop :=
  missing ∧ t = "" ∨ ¬missing ∧ Starts key t

/-- A text that starts in one of some ways. -/
def StartsIn (heads : List (List Char)) (t : String) : Prop := ∃ cs ∈ heads, Starts cs t

section

variable {key : List Char} {heads : List (List Char)} {missing missing' : Prop} {t u r s : String}

/-- What follows a text does not matter to its start. -/
theorem StartsIn.append (h : StartsIn heads t) (u : String) : StartsIn heads (t ++ u) := by
  obtain ⟨cs, hcs, hstart⟩ := h
  exact ⟨cs, hcs, hstart.append u⟩

/-- Behind a part that may be missing, the text starts with that part or with what follows it. -/
theorem StartsIn.optional (ht : OptionalPart key missing t) (hr : StartsIn heads r) :
    StartsIn (key :: heads) (t ++ r) := by
  obtain ⟨-, rfl⟩ | ⟨-, hstart⟩ := ht
  · obtain ⟨cs, hcs, hstart⟩ := hr
    rw [String.empty_append]
    exact ⟨cs, List.mem_cons_of_mem _ hcs, hstart⟩
  · exact ⟨key, List.mem_cons_self, hstart.append r⟩

/-- A part that may be missing, and what follows it, are told apart by their starts. -/
theorem Told.optional {P Q : Prop} (hheads : ∀ cs ∈ heads, ¬key <+: cs ∧ ¬cs <+: key)
    (ht : OptionalPart key missing t) (hu : OptionalPart key missing' u)
    (hmissing : missing → missing' → P) (hpart : ¬missing → ¬missing' → Told t u P)
    (hr : StartsIn heads r) (hs : StartsIn heads s) (hrest : Told r s Q) :
    Told (t ++ r) (u ++ s) (P ∧ Q) := by
  obtain ⟨hm, rfl⟩ | ⟨hm, htkey⟩ := ht
  · obtain ⟨hm', rfl⟩ | ⟨-, hukey⟩ := hu
    · rw [String.empty_append, String.empty_append]
      exact hrest.mono fun hQ => ⟨hmissing hm hm', hQ⟩
    · obtain ⟨cs, hcs, hstart⟩ := hr
      rw [String.empty_append]
      exact .differ hstart (hukey.append s) (hheads cs hcs).symm
  · obtain ⟨-, rfl⟩ | ⟨hm', -⟩ := hu
    · obtain ⟨cs, hcs, hstart⟩ := hs
      rw [String.empty_append]
      exact .differ (htkey.append r) hstart (hheads cs hcs)
    · exact (hpart hm hm').append fun _ => hrest

end

end Promptwright.Script
