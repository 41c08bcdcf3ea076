import Promptwright.Proofs.Json.Members
import Promptwright.Proofs.Json.Told
import Promptwright.Proofs.Script.Evaluation

/-!
# JSON texts as expressions of scripts

The text of a JSON value with one item to a line is an expression of scripts, too.  Its value is the
data that the JSON value stands for, but for the members with the name `__proto__`: in a script
these set the prototype of their object, and what they hold is lost.

## Key results

- `denotes_number`: numbers are read as the floating numbers next to them
- `denotes_prettyAt`: the text of a value at some depth
- `evaluate_pretty`: the text of a value
- `data_withoutPrototypes_iff`: nothing is lost just if no member has this name
-/

namespace Promptwright

open Script (Data Denotes Draft Frame Leads Stage isDecimal isExponent isFraction isWhole numeral?
  prototypeName units word?)

/-! ## Numerals -/

/-- The digits of a positive number do not start with a zero. -/
theorem head?_toDigits_ne_zero {n : Nat} (hn : 0 < n) : (Nat.toDigits 10 n).head? ≠ some '0' := by
  induction n using Nat.strongRecOn with
  | ind n ih =>
    by_cases hlt : n < 10
    · have hall : ∀ i : Fin 10, 0 < i.val → Nat.digitChar i.val ≠ '0' := by decide
      rw [Nat.toDigits_of_lt_base hlt, List.head?_cons]
      exact fun h => hall ⟨n, hlt⟩ hn (Option.some.inj h)
    · rw [Nat.toDigits_of_base_le (by decide) (by omega),
        List.head?_append_of_ne_nil _ Nat.toDigits_ne_nil]
      exact ih (n / 10) (by omega) (by omega)

/-- Digits without a zero in front may stand before a point. -/
theorem isWhole_of_head? {ds : List Char} (hds : ∀ c ∈ ds, c.isDigit = true) (hne : ds ≠ [])
    (hzero : ds.head? ≠ some '0') : isWhole ds = true := by
  cases ds with
  | nil => exact absurd rfl hne
  | cons c ds =>
    have hc : c ≠ '0' := fun h => hzero (congrArg some h)
    have hall : (c :: ds).all Char.isDigit = true := List.all_eq_true.mpr hds
    simp [isWhole, hc, hall]

/-- The digits of a number may stand before a point. -/
theorem isWhole_toDigits (n : Nat) : isWhole (Nat.toDigits 10 n) = true := by
  rcases Nat.eq_zero_or_pos n with rfl | hn
  · rw [Nat.toDigits_zero]
    rfl
  · exact isWhole_of_head? (fun c => Nat.isDigit_of_mem_toDigits (by decide) (by decide))
      Nat.toDigits_ne_nil (head?_toDigits_ne_zero hn)

/-- A numeral in two parts. -/
theorem isDecimal_append {ds rest : List Char} (hds : ∀ c ∈ ds, c.isDigit = true)
    (hwhole : isWhole ds = true) (hrest : ∀ c, rest.head? = some c → c.isDigit = false)
    (hfraction : isFraction rest = true) : isDecimal (ds ++ rest) = true := by
  obtain ⟨htake, hdrop⟩ := Text.span_append hds hrest
  rw [isDecimal, htake, hdrop, hwhole, hfraction]
  rfl

/-- A point with digits behind it. -/
theorem isFraction_point {fs rest : List Char} (hfs : ∀ c ∈ fs, c.isDigit = true) (hne : fs ≠ [])
    (hrest : Decimal.AtExponent rest) (hexp : isExponent rest = true) :
    isFraction ('.' :: (fs ++ rest)) = true := by
  obtain ⟨htake, hdrop⟩ := Text.span_append hfs hrest.isDigit_eq_false
  simp [isFraction, htake, hdrop, hne, hexp]

/-- A numeral with a point. -/
theorem isDecimal_point {ds fs rest : List Char} (hds : ∀ c ∈ ds, c.isDigit = true)
    (hwhole : isWhole ds = true) (hfs : ∀ c ∈ fs, c.isDigit = true) (hne : fs ≠ [])
    (hrest : Decimal.AtExponent rest) (hexp : isExponent rest = true) :
    isDecimal (ds ++ '.' :: (fs ++ rest)) = true := by
  refine isDecimal_append hds hwhole ?_ (isFraction_point hfs hne hrest hexp)
  intro c hc
  rw [← Option.some.inj hc]
  decide

/-- The digits of a number are a numeral. -/
theorem isDecimal_toDigits (n : Nat) : isDecimal (Nat.toDigits 10 n) = true := by
  have h : isDecimal (Nat.toDigits 10 n ++ []) = true :=
    isDecimal_append (fun c => Nat.isDigit_of_mem_toDigits (by decide) (by decide))
      (isWhole_toDigits n) nofun rfl
  rwa [List.append_nil] at h

section Written

variable {d : Decimal}

/-- The digits in front of the point of a positive decimal. -/
theorem isWhole_of_front {ds : List Char} (hd : 0 < d.digits) (hds : d.Front ds) :
    isWhole ds = true := by
  obtain rfl | hhead := hds.head
  · rfl
  · exact isWhole_of_head? hds.digits hds.ne_nil (hhead ▸ head?_toDigits_ne_zero hd)

/-- An exponent or nothing ends a numeral. -/
theorem isExponent_endText (exponent : Option Int) :
    isExponent (Decimal.endText exponent) = true := by
  cases exponent with
  | none => rfl
  | some k =>
    have hds : (Nat.toDigits 10 k.natAbs).all Char.isDigit = true :=
      List.all_eq_true.mpr fun c => Nat.isDigit_of_mem_toDigits (by decide) (by decide)
    rw [Decimal.endText, Decimal.exponentText, isExponent, hds]
    split <;> simp [Nat.toDigits_ne_nil]

/-- What is written for a positive decimal is a numeral. -/
theorem Decimal.Written.isDecimal {cs : List Char} (h : d.Written cs) (hd : 0 < d.digits) :
    isDecimal cs = true := by
  cases h with
  | point ds fs exponent hds hfs hne =>
    exact isDecimal_point hds.digits (isWhole_of_front hd hds) hfs hne
      (Decimal.atExponent_endText exponent) (isExponent_endText exponent)
  | whole =>
    have hend := Decimal.atExponent_endText (some d.exponent)
    have hds := d.front_numerals
    refine isDecimal_append hds.digits (isWhole_of_front hd hds) hend.isDigit_eq_false ?_
    exact isExponent_endText (some d.exponent)

/-- A decimal is a numeral as JSON writes it. -/
theorem isDecimal_layout (hd : 0 < d.digits) : isDecimal (Json.Number.layout d) = true :=
  d.written_layout.isDecimal hd

end Written

/-! ## Numbers -/

/-- A numeral is no word of letters and has no sign. -/
theorem word?_of_digit {cs : List Char} (h : StartsWithDigit cs) :
    word? cs = (numeral? cs).map .number := by
  obtain ⟨c, hc, hdigit⟩ := h
  obtain ⟨ds, rfl⟩ := List.head?_eq_some_iff.mp hc
  have hne : ∀ b : Char, b.isDigit = false → c ≠ b := by
    rintro b hb rfl
    rw [hdigit] at hb
    cases hb
  simp [word?, hne 'n' (by decide), hne 't' (by decide), hne 'f' (by decide),
    hne '-' (by decide)]

/-- A numeral with the sign of its number. -/
theorem word?_signText {negative : Bool} {cs : List Char} (hcs : StartsWithDigit cs)
    {x : Bool → Binary64} (hneg : (x false).neg = x true) (h : numeral? cs = some (x false)) :
    word? (signText negative ++ cs) = some (.number (x negative)) := by
  cases negative with
  | false =>
    show word? cs = _
    rw [word?_of_digit hcs, h]
    rfl
  | true =>
    show (numeral? cs).map _ = _
    rw [h, ← hneg]
    rfl

/-- The digits of a number are read as the floating number next to it. -/
theorem numeral?_toDigits (n : Nat) :
    numeral? (Nat.toDigits 10 n) = some (Binary64.round false n 1 0) := by
  have hread : Decimal.read (Nat.toDigits 10 n ++ []) = _ :=
    Decimal.read_whole (fun c => Nat.isDigit_of_mem_toDigits (by decide) (by decide)) nofun
  rw [List.append_nil, Nat.ofDigitChars_ten_toDigits] at hread
  rw [numeral?, if_pos (isDecimal_toDigits n), hread]
  simp [Binary64.nearestTo, Binary64.scaleTen, Decimal.readExponent]

/-- The text of a finite number is read as the number. -/
theorem numeral?_magnitude {m : Nat} {e : Int} (h : Binary64.Representable m e) :
    numeral? (Binary64.magnitude m e) = some (.finite false m e) := by
  rw [Binary64.magnitude]
  split
  next hm =>
    subst hm
    have he : e = Binary64.minExponent := h.normal.resolve_left (by decide)
    rw [he]
    rfl
  next hm =>
    have hpos := Nat.pos_of_ne_zero hm
    have hround := Binary64.roundsTo_shortest .even h hpos
    have hdigits : 0 < (Binary64.shortest .even m e).digits := by
      by_contra hzero
      have hvalue := hround.pos hpos
      rw [Decimal.value, Nat.eq_zero_of_not_pos hzero] at hvalue
      simp at hvalue
    -- the text of a decimal is read as a decimal of the same value
    rw [← Decimal.value_read_layout] at hround
    rw [numeral?, if_pos (isDecimal_layout hdigits), Binary64.nearestTo_eq false h hpos hround]

/-- A number is read as the floating number next to it, and a floating one as itself. -/
theorem denotes_number {n : Json.Number} (h : n.Proper) :
    Denotes n.text (.number n.toBinary64) := by
  refine .word (Script.wordText_number n) ?_
  cases n with
  | integer n =>
    rw [Json.Number.toList_integer]
    exact word?_signText (x := fun s => Binary64.round s n.natAbs 1 0)
      (startsWithDigit_toDigits _) (Binary64.neg_round ..) (numeral?_toDigits _)
  | float x =>
    obtain ⟨negative, m, e⟩ | _ | _ := x
    · rw [Json.Number.text, Binary64.toList_floatText]
      exact word?_signText (x := fun s => .finite s m e) (Binary64.startsWithDigit_magnitude m e)
        rfl (numeral?_magnitude h)
    · cases h
    · cases h

/-! ## Data -/

namespace Json

mutual

/-- The data that a value stands for.  All numbers of scripts are floating ones. -/
def data : Json → Data
  | .null => .null
  | .bool b => .bool b
  | .number n => .number n.toBinary64
  | .string s => .string (units s)
  | .array items => .array (itemsData items)
  | .object members => .object (membersData members)
  termination_by structural j => j

/-- The data of items. -/
def itemsData : List Json → List Data
  | [] => []
  | j :: js => data j :: itemsData js
  termination_by structural js => js

/-- The data of members. -/
def membersData : List (String × Json) → List (List Nat × Data)
  | [] => []
  | (key, j) :: ms => (units key, data j) :: membersData ms
  termination_by structural ms => ms

end

/-! ### Prototypes -/

mutual

/-- What is left of a value when all members are taken out whose name is that of a prototype. -/
def withoutPrototypes : Json → Json
  | .array items => .array (itemsWithoutPrototypes items)
  | .object members => .object (membersWithoutPrototypes members)
  | j => j
  termination_by structural j => j

/-- What is left of items. -/
def itemsWithoutPrototypes : List Json → List Json
  | [] => []
  | j :: js => withoutPrototypes j :: itemsWithoutPrototypes js
  termination_by structural js => js

/-- What is left of members. -/
def membersWithoutPrototypes : List (String × Json) → List (String × Json)
  | [] => []
  | (key, j) :: ms =>
    if key = prototypeName then membersWithoutPrototypes ms
    else (key, withoutPrototypes j) :: membersWithoutPrototypes ms
  termination_by structural ms => ms

end

mutual

/-- No member at any depth has the name of a prototype. -/
def NoPrototypes : Json → Prop
  | .array items => ItemsNoPrototypes items
  | .object members => MembersNoPrototypes members
  | _ => True
  termination_by structural j => j

/-- The same for items. -/
def ItemsNoPrototypes : List Json → Prop
  | [] => True
  | j :: js => NoPrototypes j ∧ ItemsNoPrototypes js
  termination_by structural js => js

/-- The same for members. -/
def MembersNoPrototypes : List (String × Json) → Prop
  | [] => True
  | (key, j) :: ms => (key ≠ prototypeName ∧ NoPrototypes j) ∧ MembersNoPrototypes ms
  termination_by structural ms => ms

end

/-- Items one by one. -/
theorem itemsNoPrototypes_iff {js : List Json} :
    ItemsNoPrototypes js ↔ ∀ j ∈ js, j.NoPrototypes := by
  induction js with
  | nil => simp [ItemsNoPrototypes]
  | cons j js ih => rw [ItemsNoPrototypes, ih, List.forall_mem_cons]

/-- Members one by one. -/
theorem membersNoPrototypes_iff {ms : Members} :
    MembersNoPrototypes ms ↔ ∀ m ∈ ms, m.1 ≠ prototypeName ∧ m.2.NoPrototypes := by
  induction ms with
  | nil => simp [MembersNoPrototypes]
  | cons m ms ih => rw [MembersNoPrototypes, ih, List.forall_mem_cons]

/-- No members are added. -/
theorem length_membersData_withoutPrototypes_le (ms : Members) :
    (membersData (membersWithoutPrototypes ms)).length ≤ (membersData ms).length := by
  induction ms with
  | nil => exact le_rfl
  | cons m ms ih =>
    rw [membersWithoutPrototypes, membersData, List.length_cons]
    split
    · exact Nat.le_succ_of_le ih
    · rw [membersData, List.length_cons]
      exact Nat.succ_le_succ ih

mutual

/-- Nothing is lost without prototypes. -/
theorem withoutPrototypes_eq_self : (j : Json) → j.NoPrototypes → j.withoutPrototypes = j
  | .null, _ => rfl
  | .bool _, _ => rfl
  | .number _, _ => rfl
  | .string _, _ => rfl
  | .array items, h => congrArg Json.array (itemsWithoutPrototypes_eq_self items h)
  | .object members, h => congrArg Json.object (membersWithoutPrototypes_eq_self members h)
  termination_by structural j => j

/-- The same for items. -/
theorem itemsWithoutPrototypes_eq_self :
    (js : List Json) → ItemsNoPrototypes js → itemsWithoutPrototypes js = js
  | [], _ => rfl
  | j :: js, ⟨hj, hjs⟩ => by
    rw [itemsWithoutPrototypes, withoutPrototypes_eq_self j hj,
      itemsWithoutPrototypes_eq_self js hjs]
  termination_by structural js => js

/-- The same for members. -/
theorem membersWithoutPrototypes_eq_self :
    (ms : List (String × Json)) → MembersNoPrototypes ms → membersWithoutPrototypes ms = ms
  | [], _ => rfl
  | (key, j) :: ms, ⟨⟨hkey, hj⟩, hms⟩ => by
    rw [membersWithoutPrototypes, if_neg hkey, withoutPrototypes_eq_self j hj,
      membersWithoutPrototypes_eq_self ms hms]
  termination_by structural ms => ms

end

mutual

/-- A prototype is lost: the data are not the same without it. -/
theorem noPrototypes_of_data_eq :
    (j : Json) → j.withoutPrototypes.data = j.data → j.NoPrototypes
  | .null, _ => trivial
  | .bool _, _ => trivial
  | .number _, _ => trivial
  | .string _, _ => trivial
  | .array items, h => itemsNoPrototypes_of_data_eq items (Data.array.inj h)
  | .object members, h => membersNoPrototypes_of_data_eq members (Data.object.inj h)
  termination_by structural j => j

/-- The same for items. -/
theorem itemsNoPrototypes_of_data_eq : (js : List Json) →
    itemsData (itemsWithoutPrototypes js) = itemsData js → ItemsNoPrototypes js
  | [], _ => trivial
  | j :: js, h => by
    obtain ⟨hj, hjs⟩ := List.cons.inj h
    exact ⟨noPrototypes_of_data_eq j hj, itemsNoPrototypes_of_data_eq js hjs⟩
  termination_by structural js => js

/-- The same for members. -/
theorem membersNoPrototypes_of_data_eq : (ms : List (String × Json)) →
    membersData (membersWithoutPrototypes ms) = membersData ms → MembersNoPrototypes ms
  | [], _ => trivial
  | (key, j) :: ms, h => by
    rw [membersWithoutPrototypes] at h
    split at h
    next =>
      -- there would have to be more members than before
      have hle := length_membersData_withoutPrototypes_le ms
      rw [h, membersData, List.length_cons] at hle
      omega
    next hkey =>
      obtain ⟨hj, hms⟩ := List.cons.inj h
      exact ⟨⟨hkey, noPrototypes_of_data_eq j (Prod.mk.inj hj).2⟩,
        membersNoPrototypes_of_data_eq ms hms⟩
  termination_by structural ms => ms

end

/-- Nothing is lost just if no member has the name of a prototype. -/
theorem data_withoutPrototypes_iff (j : Json) :
    j.withoutPrototypes.data = j.data ↔ j.NoPrototypes :=
  ⟨noPrototypes_of_data_eq j, fun h => by rw [withoutPrototypes_eq_self j h]⟩

end Json

/-! ## Objects -/

namespace Script

/-- A new property comes last. -/
theorem setOwn_of_not_mem {name : List Nat} {v : Data} {own : List (List Nat × Data)}
    (h : name ∉ own.map Prod.fst) : setOwn name v own = own ++ [(name, v)] := by
  induction own with
  | nil => rfl
  | cons p own ih =>
    rw [List.map_cons, List.mem_cons, not_or] at h
    rw [setOwn, if_neg (Ne.symm h.1), ih h.2]
    rfl

/-- The first prototype leaves the properties as they are. -/
theorem add_prototype {d : Draft} (h : d.hasPrototype = false) (v : Data) :
    d.add (units prototypeName, v) = some { d with hasPrototype := true } := by
  rw [Draft.add, if_pos rfl, h]
  rfl

/-- An entry with a new name that is not that of a prototype is a property. -/
theorem add_of_not_mem {d : Draft} {key : String} (hname : key ≠ prototypeName)
    (h : units key ∉ d.own.map Prod.fst) (v : Data) :
    d.add (units key, v) = some { d with own := d.own ++ [(units key, v)] } := by
  rw [Draft.add, if_neg fun hunits => hname (units_injective hunits), setOwn_of_not_mem h]

end Script

namespace Json

/-- The entries of an object as they are evaluated. -/
def entries (ms : Members) : List (List Nat × Data) :=
  ms.map fun m => (units m.1, m.2.withoutPrototypes.data)

/-- An object is built from its members, all but a prototype. -/
theorem exists_foldlM_add {ms : Members} (hkeys : ms.keys.Nodup) (d : Draft)
    (hown : ∀ key ∈ ms.keys, units key ∉ d.own.map Prod.fst)
    (hproto : d.hasPrototype = true → prototypeName ∉ ms.keys) :
    ∃ r, (entries ms).foldlM Draft.add d = some r ∧
      r.own = d.own ++ membersData (membersWithoutPrototypes ms) := by
  induction ms generalizing d with
  | nil => exact ⟨d, rfl, (List.append_nil _).symm⟩
  | cons m ms ih =>
    obtain ⟨key, j⟩ := m
    obtain ⟨hkey, hkeys⟩ := List.nodup_cons.mp hkeys
    have hown' : ∀ k ∈ Members.keys ms, units k ∉ d.own.map Prod.fst := fun k hk =>
      hown k (List.mem_cons_of_mem _ hk)
    by_cases hname : key = prototypeName
    · -- the first and only prototype
      have hfalse : d.hasPrototype = false :=
        Bool.eq_false_iff.mpr fun h => hproto h (hname ▸ List.mem_cons_self)
      obtain ⟨r, hr, hrown⟩ := ih hkeys { d with hasPrototype := true } hown'
        fun _ => hname ▸ hkey
      refine ⟨r, ?_, ?_⟩
      · rw [entries, List.map_cons, List.foldlM_cons, hname, Script.add_prototype hfalse]
        exact hr
      · rw [membersWithoutPrototypes, if_pos hname, hrown]
    · have hadd := Script.add_of_not_mem hname (hown key List.mem_cons_self)
        j.withoutPrototypes.data
      have hfresh : ∀ k ∈ Members.keys ms,
          units k ∉ (d.own ++ [(units key, j.withoutPrototypes.data)]).map Prod.fst := by
        intro k hk
        have hne : k ≠ key := fun h => hkey (h ▸ hk)
        rw [List.map_append, List.mem_append, not_or]
        exact ⟨hown' k hk, fun h => hne (Script.units_injective (List.mem_singleton.mp h))⟩
      obtain ⟨r, hr, hrown⟩ := ih hkeys
        { d with own := d.own ++ [(units key, j.withoutPrototypes.data)] } hfresh
        fun h hmem => hproto h (List.mem_cons_of_mem _ hmem)
      refine ⟨r, ?_, ?_⟩
      · rw [entries, List.map_cons, List.foldlM_cons, hadd]
        exact hr
      · rw [membersWithoutPrototypes, if_neg hname, membersData, hrown, List.append_assoc]
        rfl

/-! ## Texts -/

variable {s : Stage} {frames : List Frame} {depth : Nat} {v : Data}

/-- Further items of an array. -/
theorem exists_leads_prettyItems {js : List Json}
    (hjs : ∀ j ∈ js, Denotes (prettyAt depth j) j.withoutPrototypes.data) {done : List Data}
    (hs : s.settle = some (.value v (.array done :: frames))) :
    ∃ s' v' done', Leads s (prettyItems depth js) s' ∧
      s'.settle = some (.value v' (.array done' :: frames)) ∧
      done' ++ [v'] = done ++ v :: itemsData (itemsWithoutPrototypes js) := by
  induction js generalizing s v done with
  | nil => exact ⟨s, v, done, .empty s, hs, rfl⟩
  | cons j js ih =>
    obtain ⟨s₁, hj, hs₁⟩ := hjs j List.mem_cons_self (.array (done ++ [v]) :: frames)
    obtain ⟨s', v', done', hrest, hs', hdone⟩ :=
      ih (fun k hk => hjs k (List.mem_cons_of_mem _ hk)) hs₁
    refine ⟨s', v', done', ?_, hs', ?_⟩
    -- the comma and the new line, the item, and the other ones
    · exact (((Leads.behind hs (by decide) rfl).append (Script.leads_newline rfl depth)).append
        hj).append hrest
    · rw [hdone, itemsWithoutPrototypes, itemsData, List.append_assoc]
      rfl

/-- Further members of an object. -/
theorem exists_leads_prettyMembers {ms : Members}
    (hms : ∀ m ∈ ms, Denotes (prettyAt depth m.2) m.2.withoutPrototypes.data) {d d₁ r : Draft}
    {name : List Nat} (hs : s.settle = some (.value v (.entry d name :: frames)))
    (hadd : d.add (name, v) = some d₁) (hr : (entries ms).foldlM Draft.add d₁ = some r) :
    ∃ s' v' d' name', Leads s (prettyMembers depth ms) s' ∧
      s'.settle = some (.value v' (.entry d' name' :: frames)) ∧ d'.add (name', v') = some r := by
  induction ms generalizing s v d d₁ name with
  | nil =>
    obtain rfl := Option.some.inj hr
    exact ⟨s, v, d, name, .empty s, hs, hadd⟩
  | cons m ms ih =>
    obtain ⟨key, j⟩ := m
    obtain ⟨s₁, hj, hs₁⟩ := hms _ List.mem_cons_self (.entry d₁ (units key) :: frames)
    rw [entries, List.map_cons, List.foldlM_cons] at hr
    obtain ⟨d₂, hadd₁, hr⟩ := Option.bind_eq_some_iff.mp hr
    obtain ⟨s', v', d', name', hrest, hs', hlast⟩ :=
      ih (fun m hm => hms m (List.mem_cons_of_mem _ hm)) hs₁ hadd₁ hr
    refine ⟨s', v', d', name', ?_, hs', hlast⟩
    -- the entry in front is added where the comma is read
    have hcomma : Leads s (String.ofList [',']) (.member d₁ frames) := by
      refine .behind hs (by decide) ?_
      show (d.add (name, v)).map _ >>= some = _
      rw [hadd]
      rfl
    exact ((((hcomma.append (Script.leads_newline rfl depth)).append
      (Script.leads_name (Script.literal_quoted key) d₁ frames)).append
      (.code (by decide) rfl)).append hj).append hrest

mutual

/-- The text of a value at some depth denotes the data of the value without prototypes. -/
theorem denotes_prettyAt : (j : Json) → j.WellFormed → j.Proper → (depth : Nat) →
    Denotes (prettyAt depth j) j.withoutPrototypes.data
  | .null, _, _, _ => .word (t := "null") (by decide) rfl
  | .bool true, _, _, _ => .word (t := "true") (by decide) rfl
  | .bool false, _, _, _ => .word (t := "false") (by decide) rfl
  | .number n, _, hn, _ => denotes_number hn
  | .string s, _, _, _ => .literal (Script.literal_quoted s)
  | .array [], _, _, _ => fun frames =>
    ⟨.value (.array []) frames, .code (by decide) rfl, rfl⟩
  | .array (j :: js), ⟨hw, hws⟩, ⟨hp, hps⟩, depth => fun frames => by
    obtain ⟨s, hj, hs⟩ := denotes_prettyAt j hw hp (depth + 1) (.array [] :: frames)
    obtain ⟨s', v, done, hjs, hs', hdone⟩ :=
      exists_leads_prettyItems (denotes_items js hws hps (depth + 1)) hs
    refine ⟨.value (.array (done ++ [v])) frames, ?_, ?_⟩
    · exact (((((Leads.code (by decide) rfl).append (Script.leads_newline rfl _)).append hj).append
        hjs).append (Script.leads_newline hs' _)).append (.code (by decide) rfl)
    · rw [hdone]
      rfl
  | .object [], _, _, _ => fun frames =>
    ⟨.value (.object []) frames, .code (by decide) rfl, rfl⟩
  | .object ((key, j) :: ms), ⟨hkeys, hw, hws⟩, ⟨hp, hps⟩, depth => fun frames => by
    obtain ⟨s, hj, hs⟩ :=
      denotes_prettyAt j hw hp (depth + 1) (.entry ⟨[], false⟩ (units key) :: frames)
    obtain ⟨r, hr, hown⟩ :=
      exists_foldlM_add hkeys ⟨[], false⟩ (fun _ _ => List.not_mem_nil) nofun
    -- the first entry is the only one without a comma in front of it
    rw [entries, List.map_cons, List.foldlM_cons] at hr
    obtain ⟨d₁, hadd, hr⟩ := Option.bind_eq_some_iff.mp hr
    obtain ⟨s', v, d, name, hms, hs', hlast⟩ :=
      exists_leads_prettyMembers (denotes_members ms hws hps (depth + 1)) hs hadd hr
    have hclose : Leads (.value v (.entry d name :: frames)) (String.ofList ['\x7d'])
        (.value (.object r.own) frames) := by
      refine .code (by decide) ?_
      show (d.add (name, v)).map _ >>= some = _
      rw [hlast]
      rfl
    refine ⟨.value (.object r.own) frames, ?_, ?_⟩
    · exact (((((((Leads.code (by decide) rfl).append (Script.leads_newline rfl _)).append
        (Script.leads_name (Script.literal_quoted key) _ frames)).append
        (.code (by decide) rfl)).append hj).append hms).append
        (Script.leads_newline hs' _)).append hclose
    · rw [hown]
      rfl
  termination_by structural j => j

/-- The same for items. -/
theorem denotes_items : (js : List Json) → WellFormedItems js → ProperItems js → (depth : Nat) →
    ∀ j ∈ js, Denotes (prettyAt depth j) j.withoutPrototypes.data
  | [], _, _, _ => List.forall_mem_nil _
  | j :: js, ⟨hw, hws⟩, ⟨hp, hps⟩, depth =>
    List.forall_mem_cons.mpr ⟨denotes_prettyAt j hw hp depth, denotes_items js hws hps depth⟩
  termination_by structural js => js

/-- The same for members. -/
theorem denotes_members : (ms : List (String × Json)) → WellFormedMembers ms → ProperMembers ms →
    (depth : Nat) → ∀ m ∈ ms, Denotes (prettyAt depth m.2) m.2.withoutPrototypes.data
  | [], _, _, _ => List.forall_mem_nil _
  | (_, j) :: ms, ⟨hw, hws⟩, ⟨hp, hps⟩, depth =>
    List.forall_mem_cons.mpr ⟨denotes_prettyAt j hw hp depth, denotes_members ms hws hps depth⟩
  termination_by structural ms => ms

end

/-- The text of a value is an expression for the data of the value, but for prototypes. -/
theorem evaluate_pretty {j : Json} (hw : j.WellFormed) (hp : j.Proper) :
    Script.evaluate j.pretty = some j.withoutPrototypes.data :=
  (denotes_prettyAt j hw hp 0).evaluate_eq

end Json

end Promptwright
