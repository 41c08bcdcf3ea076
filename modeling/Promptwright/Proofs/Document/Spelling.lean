import Promptwright.Proofs.Document.Records
import Promptwright.Proofs.Json.Members

/-!
# Spellings of values

A value is spelled by many trees: by its own one, which a JSON text leads to, and by those of YAML
texts, where every scalar stands as it is written.  Whatever reader a part of a document meets, it
gets the value that the part spells.

## Key results

- `Json.Spelled`: the trees that spell a value
- `text_of_spelled`, `bool_of_spelled`, `signed_of_spelled`, `float_of_spelled`: single values
- `list_of_spelled`: lists
- `json_of_spelled`: arbitrary values
- `setAside_of_spelled`: parts that are set aside
-/

namespace Promptwright

/-! ## Spellings -/

/-- A part without parts of its own that means an atom: the atom itself, or a YAML scalar without a
tag. -/
def Node.SpellsAtom (a : Atom) : Node → Prop
  | .atom b => b = a
  | .scalar s => s.tag = none ∧ s.atom? = .ok a
  | _ => False

namespace Json

mutual

/-- The trees that spell a value. -/
def Spelled : Json → Node → Prop
  | .null, n => n.SpellsAtom .null
  | .bool b, n => n.SpellsAtom (.bool b)
  | .number (.integer i), n => n.SpellsAtom (.integer i)
  | .number (.float x), n => n.SpellsAtom (.float x)
  | .string s, n => n.SpellsAtom (.string s)
  | .array items, n => ∃ ns, n = .sequence false ns ∧ SpelledItems items ns
  | .object members, n => ∃ es, n = .mapping false es ∧ SpelledMembers members es
  termination_by structural j => j

/-- The trees that spell the items of an array. -/
def SpelledItems : List Json → List Node → Prop
  | [], ns => ns = []
  | j :: js, ns => ∃ m ms, ns = m :: ms ∧ Spelled j m ∧ SpelledItems js ms
  termination_by structural js => js

/-- The trees that spell the members of an object. -/
def SpelledMembers : List (String × Json) → List (Node × Node) → Prop
  | [], es => es = []
  | (key, j) :: ms, es => ∃ k n rest, es = (k, n) :: rest ∧ k.SpellsAtom (.string key) ∧
      Spelled j n ∧ SpelledMembers ms rest
  termination_by structural ms => ms

end

mutual

/-- A value is spelled by its own tree. -/
theorem spelled_ofJson : (j : Json) → Spelled j (Node.ofJson j)
  | .null => rfl
  | .bool _ => rfl
  | .number (.integer _) => rfl
  | .number (.float _) => rfl
  | .string _ => rfl
  | .array items => ⟨_, rfl, spelledItems_ofItems items⟩
  | .object members => ⟨_, rfl, spelledMembers_ofMembers members⟩
  termination_by structural j => j

/-- So are items. -/
theorem spelledItems_ofItems : (js : List Json) → SpelledItems js (Node.ofItems js)
  | [] => rfl
  | j :: js => ⟨_, _, rfl, spelled_ofJson j, spelledItems_ofItems js⟩
  termination_by structural js => js

/-- So are members. -/
theorem spelledMembers_ofMembers : (ms : List (String × Json)) →
    SpelledMembers ms (Node.ofMembers ms)
  | [] => rfl
  | (_, j) :: ms => ⟨_, _, _, rfl, rfl, spelled_ofJson j, spelledMembers_ofMembers ms⟩
  termination_by structural ms => ms

end

end Json

/-! ## Scalars -/

namespace Scalar

variable {s : Scalar} {t : String}

/-- A scalar without a tag that is no text stands plain. -/
theorem plain_of_atom? {a : Atom} (htag : s.tag = none) (h : s.atom? = .ok a)
    (ha : ∀ t, a ≠ .string t) : s.style = .plain ∧ plainAtom s.text = a := by
  rw [atom?, htag] at h
  dsimp only at h
  split at h
  · next hplain => exact ⟨hplain, Except.ok.inj h⟩
  · exact (ha _ (Except.ok.inj h).symm).elim

/-- What a plain text means, and as what it reads then. -/
inductive Means (t : String) : Atom → Prop
  | null : Means t .null
  | bool {b : Bool} (h : bool? t = some b) : Means t (.bool b)
  | integer {n : Int} (h : integer? t = some n) : Means t (.integer n)
  | wide {n : Int} (h : integer? t = some n) : Means t (.wide n)
  | float {x : Binary64} (h : float? t = some x) : Means t (.float x)
  | string : Means t (.string t)

/-- Every plain text reads as what it means. -/
theorem means_plainAtom (t : String) : Means t (plainAtom t) := by
  -- the forms are tried one after the other
  unfold plainAtom
  split
  · exact .null
  split
  · next h => exact .bool h
  split
  · next a ha =>
    obtain ⟨n, hn, ha⟩ := Option.bind_eq_some_iff.mp ha
    unfold integerAtom? at ha
    split at ha
    · cases ha
      exact .integer hn
    · split at ha
      · cases ha
        exact .wide hn
      · cases ha
  split
  · exact .string
  split
  · next h => exact .float h
  · exact .string

/-- A plain text that means something is not empty, and not the word for null. -/
theorem isGiven_of_plainAtom (h : plainAtom t ≠ .null) :
    (t.isEmpty || isNullWord t) = false := by
  by_contra hnull
  exact h (by rw [plainAtom, if_pos (Bool.not_eq_false _ ▸ hnull)])

end Scalar

namespace Node

variable {α : Type} {n : Node} {s : String}

/-! ## Single values -/

/-- What spells a text has this text. -/
theorem text?_of_spellsAtom (h : n.SpellsAtom (.string s)) : n.text? = some s := by
  cases n with
  | atom a =>
    cases h
    rfl
  | scalar t =>
    obtain ⟨htag, hatom⟩ := h
    rw [text?, Option.some.injEq]
    rw [Scalar.atom?, htag] at hatom
    dsimp only at hatom
    split at hatom
    · have hmeans := Scalar.means_plainAtom t.text
      rw [Except.ok.inj hatom] at hmeans
      cases hmeans
      rfl
    · exact Atom.string.inj (Except.ok.inj hatom)
  | absent | fault | sequence _ _ | mapping _ _ => cases h

/-- A text is read. -/
theorem text_of_spelled (h : (Json.string s).Spelled n) (expected : String) :
    n.text expected = .ok s :=
  text_eq_ok_iff.mpr (text?_of_spellsAtom h)

/-- A boolean is read. -/
theorem bool_of_spelled {b : Bool} (h : (Json.bool b).Spelled n) : n.bool = .ok b := by
  cases n with
  | atom a =>
    cases h
    rfl
  | scalar t =>
    obtain ⟨hplain, hatom⟩ := Scalar.plain_of_atom? h.1 h.2 (by simp)
    have hmeans := Scalar.means_plainAtom t.text
    rw [hatom] at hmeans
    obtain _ | hbool := hmeans
    rw [bool]
    simp only [Scalar.admits, hplain, decide_true, Bool.true_or, if_true, hbool]
  | absent | fault | sequence _ _ | mapping _ _ => cases h

/-- A whole number of 64 bits is read. -/
theorem signed_of_spelled {i : Int} (hi : isSigned i = true)
    (h : (Json.number (.integer i)).Spelled n) : n.signed = .ok i := by
  cases n with
  | atom a =>
    cases h
    rw [signed, if_pos hi]
  | scalar t =>
    obtain ⟨hplain, hatom⟩ := Scalar.plain_of_atom? h.1 h.2 (by simp)
    have hmeans := Scalar.means_plainAtom t.text
    rw [hatom] at hmeans
    obtain _ | _ | hinteger := hmeans
    rw [signed]
    simp only [Scalar.admits, hplain, decide_true, Bool.true_or, if_true, hinteger,
      Option.filter_some, hi]
  | absent | fault | sequence _ _ | mapping _ _ => cases h

/-- A floating number is read. -/
theorem float_of_spelled {x : Binary64} (h : (Json.number (.float x)).Spelled n) :
    n.float = .ok x := by
  cases n with
  | atom a =>
    cases h
    rfl
  | scalar t =>
    obtain ⟨hplain, hatom⟩ := Scalar.plain_of_atom? h.1 h.2 (by simp)
    have hmeans := Scalar.means_plainAtom t.text
    rw [hatom] at hmeans
    obtain _ | _ | _ | _ | hfloat := hmeans
    rw [float]
    simp only [Scalar.admits, hplain, decide_true, Bool.true_or, if_true, hfloat]
  | absent | fault | sequence _ _ | mapping _ _ => cases h

/-! ## Optional values and lists -/

/-- An atom that is not null is given. -/
theorem isGiven_of_spellsAtom {a : Atom} (h : n.SpellsAtom a) (ha : a ≠ .null) :
    n.isGiven = .ok true := by
  cases n with
  | atom b =>
    cases h
    cases a with
    | null => exact (ha rfl).elim
    | bool _ | integer _ | wide _ | float _ | string _ => rfl
  | scalar t =>
    obtain ⟨htag, hatom⟩ := h
    rw [isGiven]
    split
    · rfl
    -- a plain scalar is given unless it reads as null
    · next hplain =>
      rw [Scalar.atom?, htag] at hatom
      simp only [not_not.mp hplain, if_true, Except.ok.injEq] at hatom
      rw [htag]
      dsimp only
      rw [Scalar.isGiven_of_plainAtom (hatom ▸ ha), Bool.not_false]
  | absent | fault | sequence _ _ | mapping _ _ => cases h

/-- A value other than null is given. -/
theorem isGiven_of_spelled {j : Json} (hj : j ≠ .null) (h : j.Spelled n) :
    n.isGiven = .ok true := by
  cases j with
  | null => exact (hj rfl).elim
  | bool _ | string _ => exact isGiven_of_spellsAtom h (by simp)
  | number i => cases i <;> exact isGiven_of_spellsAtom h (by simp)
  | array _ =>
    obtain ⟨ns, rfl, -⟩ := h
    rfl
  | object _ =>
    obtain ⟨es, rfl, -⟩ := h
    rfl

/-- A value other than null is read, where it may be left out. -/
theorem optional_of_spelled {read : Node → Reading α} {j : Json} {a : α} (hj : j ≠ .null)
    (h : j.Spelled n) (hread : read n = .ok a) : n.optional read = .ok (some a) := by
  rw [optional, isGiven_of_spelled hj h, hread]
  rfl

/-- A list is read if its items are. -/
theorem list_of_spelled {β : Type} {read : Node → Reading β} {as : List α} {write : α → Json}
    {f : α → β} (hread : ∀ a ∈ as, ∀ m, (write a).Spelled m → read m = .ok (f a))
    (h : (Json.array (as.map write)).Spelled n) : n.list read = .ok (as.map f) := by
  obtain ⟨ns, rfl, h⟩ := h
  rw [list]
  induction as generalizing ns with
  | nil =>
    obtain rfl := h
    rfl
  | cons a as ih =>
    obtain ⟨m, ms, rfl, hm, hms⟩ := h
    have ha := hread a List.mem_cons_self m hm
    have has := ih (fun b hb => hread b (List.mem_cons_of_mem _ hb)) ms hms
    rw [List.mapM_cons, ha, has]
    rfl

/-! ## Arbitrary values -/

/-- The value of what spells an atom. -/
theorem json_of_spellsAtom {a : Atom} (h : n.SpellsAtom a) : n.json = ofAtom a := by
  cases n with
  | atom b =>
    cases h
    rfl
  | scalar t =>
    obtain ⟨htag, hatom⟩ := h
    rw [json, htag, Scalar.atom, hatom]
    rfl
  | absent | fault | sequence _ _ | mapping _ _ => cases h

mutual

/-- A value that documents can hold is read as it is. -/
theorem json_of_spelled : (j : Json) → j.WellFormed → (n : Node) → j.Spelled n → n.json = .ok j
  | .null, _, _, h => json_of_spellsAtom h
  | .bool _, _, _, h => json_of_spellsAtom h
  | .number (.integer _), _, _, h => json_of_spellsAtom h
  | .number (.float x), hx, _, h => by
    have hfinite : x.isFinite = true := hx
    rw [json_of_spellsAtom h, ofAtom, if_pos hfinite]
  | .string _, _, _, h => json_of_spellsAtom h
  | .array items, hwf, _, ⟨ns, hn, h⟩ => by
    rw [hn, json, jsonItems_of_spelled items hwf ns h]
    rfl
  | .object members, ⟨hkeys, hwf⟩, _, ⟨es, hn, h⟩ => by
    rw [hn, json, jsonMembers_of_spelled members hwf [] (by simpa using hkeys) es h]
    rfl
  termination_by structural j => j

/-- So are items. -/
theorem jsonItems_of_spelled : (js : List Json) → Json.WellFormedItems js → (ns : List Node) →
    Json.SpelledItems js ns → jsonItems ns = .ok js
  | [], _, _, h => by
    cases h
    rfl
  | j :: js, ⟨hj, hjs⟩, _, ⟨m, ms, hns, hm, hms⟩ => by
    rw [hns, jsonItems, json_of_spelled j hj m hm, jsonItems_of_spelled js hjs ms hms]
    rfl
  termination_by structural js => js

/-- So are members, after others with other keys. -/
theorem jsonMembers_of_spelled : (ms : List (String × Json)) → Json.WellFormedMembers ms →
    (done : Json.Members) → (done ++ ms).keys.Nodup → (es : List (Node × Node)) →
    Json.SpelledMembers ms es → jsonMembers es done = .ok (done ++ ms)
  | [], _, done, _, _, h => by
    cases h
    rw [List.append_nil]
    rfl
  | (key, j) :: ms, ⟨hj, hms⟩, done, hnodup, _, ⟨k, m, rest, hes, hk, hm, h⟩ => by
    -- the text of a key is read whatever the reader says that it expects
    have hkey : k.text (if done.isEmpty then "a string key" else "a string") = .ok key :=
      text_eq_ok_iff.mpr (text?_of_spellsAtom hk)
    -- no key comes twice, so each member is put behind those before it
    have hnew : key ∉ done.keys := by
      rw [Json.Members.keys_append, List.nodup_append] at hnodup
      exact fun hmem => hnodup.2.2 key hmem key List.mem_cons_self rfl
    have happend : (done ++ [(key, j)]) ++ ms = done ++ (key, j) :: ms := List.append_assoc ..
    have hrest := jsonMembers_of_spelled ms hms (done ++ [(key, j)]) (happend ▸ hnodup) rest h
    rw [happend, ← Json.Members.insert_of_not_mem hnew j] at hrest
    rw [hes, jsonMembers, hkey, json_of_spelled j hj m hm]
    exact hrest
  termination_by structural ms => ms

end

/-! ## Setting aside -/

/-- What spells an atom is set aside as the atom. -/
theorem setAside_of_spellsAtom {a : Atom} (ha : ∀ i, a ≠ .wide i) (h : n.SpellsAtom a)
    (expected : String) : n.setAside expected = .ok (.atom a) := by
  -- only an integer that is too wide is refused
  have hsettle : settle expected a = .ok a := by
    cases a with
    | wide i => exact (ha i rfl).elim
    | null | bool _ | integer _ | float _ | string _ => rfl
  cases n with
  | atom b =>
    cases h
    rw [setAside, hsettle]
    rfl
  | scalar t =>
    obtain ⟨htag, hatom⟩ := h
    have hlocal : ¬ Scalar.isLocalTag none = true := by decide
    have hatom' : t.atom = .ok a := by rw [Scalar.atom, hatom]
    rw [setAside, htag, if_neg hlocal, hatom']
    exact (congrArg (· >>= fun b => pure (atom b)) hsettle).trans rfl
  | absent | fault | sequence _ _ | mapping _ _ => cases h

mutual

/-- A value is set aside as its own tree. -/
theorem setAside_of_spelled (expected : String) : (j : Json) → (n : Node) → j.Spelled n →
    n.setAside expected = .ok (ofJson j)
  | .null, _, h => setAside_of_spellsAtom (by simp) h expected
  | .bool _, _, h => setAside_of_spellsAtom (by simp) h expected
  | .number (.integer _), _, h => setAside_of_spellsAtom (by simp) h expected
  | .number (.float _), _, h => setAside_of_spellsAtom (by simp) h expected
  | .string _, _, h => setAside_of_spellsAtom (by simp) h expected
  | .array items, _, ⟨ns, hn, h⟩ => by
    rw [hn, setAside, setItemsAside_of_spelled items ns h]
    rfl
  | .object members, _, ⟨es, hn, h⟩ => by
    rw [hn, setAside, setEntriesAside_of_spelled members es h]
    rfl
  termination_by structural j => j

/-- So are items. -/
theorem setItemsAside_of_spelled : (js : List Json) → (ns : List Node) →
    Json.SpelledItems js ns → setItemsAside ns = .ok (ofItems js)
  | [], _, h => by
    cases h
    rfl
  | j :: js, _, ⟨m, ms, hns, hm, hms⟩ => by
    rw [hns, setItemsAside, setAside_of_spelled anyPart j m hm, setItemsAside_of_spelled js ms hms]
    rfl
  termination_by structural js => js

/-- So are members. -/
theorem setEntriesAside_of_spelled : (ms : List (String × Json)) → (es : List (Node × Node)) →
    Json.SpelledMembers ms es → setEntriesAside es = .ok (ofMembers ms)
  | [], _, h => by
    cases h
    rfl
  | (key, j) :: ms, _, ⟨k, m, rest, hes, hk, hm, h⟩ => by
    rw [hes, setEntriesAside, setAside_of_spellsAtom (by simp) hk,
      setAside_of_spelled anyPart j m hm, setEntriesAside_of_spelled ms rest h]
    rfl
  termination_by structural ms => ms

end

end Node

end Promptwright
