import Promptwright.Proofs.Json.NumberText
import Promptwright.Proofs.Script.Told

/-!
# JSON texts tell their values

The text of a value with one item to a line shows which value it is, wherever it ends: the first
character tells the kind of the value, strings and numbers are told apart by their texts, and
behind every item there is a comma or the end of the line.

## Key results

- `toldWord_of_lead_ne`: values of different kinds
- `toldWord_prettyAt`: the text of a value at some depth
-/

namespace Promptwright.Json

open Script (Starts Stops Told ToldWord WordText)

/-! ## Values with proper numbers -/

mutual

/-- A value whose floating numbers are all finite and in the form of their format. -/
def Proper : Json → Prop
  | .number n => n.Proper
  | .array items => ProperItems items
  | .object members => ProperMembers members
  | _ => True
  termination_by structural j => j

/-- Items with such numbers. -/
def ProperItems : List Json → Prop
  | [] => True
  | j :: js => Proper j ∧ ProperItems js
  termination_by structural js => js

/-- Members with such numbers. -/
def ProperMembers : List (String × Json) → Prop
  | [] => True
  | (_, j) :: ms => Proper j ∧ ProperMembers ms
  termination_by structural ms => ms

end

/-- Items one by one. -/
theorem properItems_iff {js : List Json} : ProperItems js ↔ ∀ j ∈ js, j.Proper := by
  induction js with
  | nil => simp [ProperItems]
  | cons j js ih => rw [ProperItems, ih, List.forall_mem_cons]

/-- Members one by one. -/
theorem properMembers_iff {ms : Members} : ProperMembers ms ↔ ∀ m ∈ ms, m.2.Proper := by
  induction ms with
  | nil => simp [ProperMembers]
  | cons m ms ih => rw [ProperMembers, ih, List.forall_mem_cons]

/-! ## First characters -/

/-- The kind of a value that a first character shows: a digit and a minus show a number, and the
two truth values start differently. -/
def kindOf (c : Char) : Char :=
  if c.isDigit || c == '-' then '0' else if c == 'f' then 't' else c

/-- What the first character of a value shows. -/
def lead : Json → Char
  | .null => 'n'
  | .bool _ => 't'
  | .number _ => '0'
  | .string _ => '"'
  | .array _ => '['
  | .object _ => '\x7b'

/-- The first character of a number. -/
theorem exists_head_number {n : Number} (h : n.Proper) :
    ∃ c, n.text.toList.head? = some c ∧ kindOf c = '0' := by
  -- a sign and a digit both stand for a number
  have hsigned : ∀ {negative : Bool} {cs : List Char}, StartsWithDigit cs →
      ∃ c, (signText negative ++ cs).head? = some c ∧ kindOf c = '0' := by
    rintro negative cs ⟨c, hc, hdigit⟩
    cases negative with
    | true => exact ⟨'-', rfl, by decide⟩
    | false => exact ⟨c, hc, by simp [kindOf, hdigit]⟩
  cases n with
  | integer n =>
    rw [Number.toList_integer]
    exact hsigned (startsWithDigit_toDigits _)
  | float x =>
    obtain ⟨negative, m, e⟩ | _ | _ := x
    · rw [Number.text, Binary64.toList_floatText]
      exact hsigned (Binary64.startsWithDigit_magnitude m e)
    · cases h
    · cases h

/-- The first character of a value shows its kind. -/
theorem exists_head_prettyAt (depth : Nat) {j : Json} (h : j.Proper) :
    ∃ c, (prettyAt depth j).toList.head? = some c ∧ kindOf c = j.lead := by
  cases j with
  | null => exact ⟨'n', by simp [prettyAt], rfl⟩
  | bool b =>
    cases b with
    | true => exact ⟨'t', by simp [prettyAt], rfl⟩
    | false => exact ⟨'f', by simp [prettyAt], rfl⟩
  | number n => exact exists_head_number h
  | string s => exact ⟨'"', by simp [prettyAt, quoted], rfl⟩
  | array items => cases items <;> exact ⟨'[', by simp [prettyAt], rfl⟩
  | object members =>
    cases members with
    | nil => exact ⟨'\x7b', by simp [prettyAt], rfl⟩
    | cons m ms => exact ⟨'\x7b', by simp [prettyAt], rfl⟩

/-- Values of different kinds are told apart. -/
theorem toldWord_of_lead_ne (depth : Nat) {j k : Json} (hj : j.Proper) (hk : k.Proper)
    (hlead : j.lead ≠ k.lead) {P : Prop} :
    ToldWord (prettyAt depth j) (prettyAt depth k) P := by
  intro r s _ _ heq
  obtain ⟨c, hc, hkind⟩ := exists_head_prettyAt depth hj
  obtain ⟨d, hd, hkind'⟩ := exists_head_prettyAt depth hk
  have hhead := congrArg (fun t => t.toList.head?) heq
  simp only [String.toList_append, List.head?_append, hc, hd, Option.some_or,
    Option.some.injEq] at hhead
  rw [← hkind, ← hkind', hhead] at hlead
  exact absurd rfl hlead

/-! ## Values -/

/-- A new line stops a word. -/
theorem stops_newline (depth : Nat) (t : String) : Stops (newline depth ++ t) :=
  (Script.stops_ofList (by decide) _).append t

/-- More items start with a comma, and the end of an array with a new line. -/
theorem stops_prettyItems (depth depth' : Nat) (js : List Json) (stop : String) :
    Stops (prettyItems depth js ++ (newline depth' ++ stop)) := by
  cases js with
  | nil =>
    rw [prettyItems, String.empty_append]
    exact stops_newline depth' stop
  | cons j js =>
    rw [prettyItems]
    simp only [String.append_assoc]
    exact Script.stops_ofList (by decide) _

/-- More members start with a comma, and the end of an object with a new line. -/
theorem stops_prettyMembers (depth depth' : Nat) (ms : Members) (stop : String) :
    Stops (prettyMembers depth ms ++ (newline depth' ++ stop)) := by
  cases ms with
  | nil =>
    rw [prettyMembers, String.empty_append]
    exact stops_newline depth' stop
  | cons m ms =>
    rw [prettyMembers]
    simp only [String.append_assoc]
    exact Script.stops_ofList (by decide) _

/-- Further items start with a comma, if there are any. -/
theorem starts_prettyItems (depth : Nat) (j : Json) (js : List Json) (stop : String) :
    Starts [','] (prettyItems depth (j :: js) ++ stop) := by
  simp [prettyItems, Starts]

/-- Further members start with a comma, if there are any. -/
theorem starts_prettyMembers (depth : Nat) (m : String × Json) (ms : Members) (stop : String) :
    Starts [','] (prettyMembers depth (m :: ms) ++ stop) := by
  simp [prettyMembers, Starts]

/-- What follows the last item or member starts with a new line. -/
theorem starts_newline (depth : Nat) (stop : String) :
    Starts ['\n'] ("" ++ (newline depth ++ stop)) := by
  simp [newline, Starts]

/-- An array with items and an empty one are told apart. -/
theorem told_array_cons_nil (depth : Nat) (j : Json) (js : List Json) {P : Prop} :
    Told (prettyAt depth (.array (j :: js))) (prettyAt depth (.array [])) P ∧
      Told (prettyAt depth (.array [])) (prettyAt depth (.array (j :: js))) P := by
  have hcons : Starts ['[', '\n'] (prettyAt depth (.array (j :: js))) := by
    simp [prettyAt, newline, Starts]
  have hnil : Starts ['[', ']'] (prettyAt depth (.array [])) := by simp [prettyAt, Starts]
  exact ⟨.differ hcons hnil (by decide), .differ hnil hcons (by decide)⟩

/-- An object with members and an empty one are told apart. -/
theorem told_object_cons_nil (depth : Nat) (m : String × Json) (ms : Members) {P : Prop} :
    Told (prettyAt depth (.object (m :: ms))) (prettyAt depth (.object [])) P ∧
      Told (prettyAt depth (.object [])) (prettyAt depth (.object (m :: ms))) P := by
  have hcons : Starts ['\x7b', '\n'] (prettyAt depth (.object (m :: ms))) := by
    simp [prettyAt, newline, Starts]
  have hnil : Starts ['\x7b', '\x7d'] (prettyAt depth (.object [])) := by simp [prettyAt, Starts]
  exact ⟨.differ hcons hnil (by decide), .differ hnil hcons (by decide)⟩

/-- An item on a line of its own, and what follows it. -/
theorem told_item {depth : Nat} {j k : Json} {js ks : List Json} {r s : String}
    (hitem : ToldWord (prettyAt depth j) (prettyAt depth k) (j = k)) (hr : Stops r) (hs : Stops s)
    (hrest : Told r s (js = ks)) :
    Told (newline depth ++ (prettyAt depth j ++ r)) (newline depth ++ (prettyAt depth k ++ s))
      (j :: js = k :: ks) :=
  ((hitem.append hr hs fun _ => hrest).after _).mono fun h => by rw [h.1, h.2]

/-- A member on a line of its own, and what follows it. -/
theorem told_member {depth : Nat} (key key' : String) {j k : Json} {ms ns : Members} {r s : String}
    (hvalue : ToldWord (prettyAt depth j) (prettyAt depth k) (j = k)) (hr : Stops r)
    (hs : Stops s) (hrest : Told r s (ms = ns)) :
    Told (newline depth ++ (quoted key ++ (": " ++ (prettyAt depth j ++ r))))
      (newline depth ++ (quoted key' ++ (": " ++ (prettyAt depth k ++ s))))
      ((key, j) :: ms = (key', k) :: ns) := by
  have hkey := Told.literal (Script.literal_quoted key) (Script.literal_quoted key')
  have hmember := hkey.append fun _ => (hvalue.append hr hs fun _ => hrest).after ": "
  exact (hmember.after _).mono fun h => by rw [h.1, h.2.1, h.2.2]

mutual

/-- The text of a value. -/
theorem toldWord_prettyAt (depth : Nat) : (j : Json) → j.Proper → (k : Json) → k.Proper →
    ToldWord (prettyAt depth j) (prettyAt depth k) (j = k)
  | .null, hj, k, hk => by
    cases k with
    | null => exact ((Told.same _).mono fun _ => rfl).toldWord
    -- the first character tells it from the values of all other kinds
    | _ => exact toldWord_of_lead_ne depth hj hk (by simp [lead])
  | .bool b, hj, k, hk => by
    cases k with
    | bool b' =>
      have htrue : Starts ['t'] (prettyAt depth (.bool true)) := by simp [prettyAt, Starts]
      have hfalse : Starts ['f'] (prettyAt depth (.bool false)) := by simp [prettyAt, Starts]
      cases b <;> cases b'
      · exact ((Told.same _).mono fun _ => rfl).toldWord
      · exact (Told.differ hfalse htrue (by decide)).toldWord
      · exact (Told.differ htrue hfalse (by decide)).toldWord
      · exact ((Told.same _).mono fun _ => rfl).toldWord
    | _ => exact toldWord_of_lead_ne depth hj hk (by simp [lead])
  | .number n, hj, k, hk => by
    cases k with
    | number n' =>
      exact (ToldWord.word (Script.wordText_number n) (Script.wordText_number n')).mono fun h =>
        congrArg number (Number.text_injective hj hk h)
    | _ => exact toldWord_of_lead_ne depth hj hk (by simp [lead])
  | .string s, hj, k, hk => by
    cases k with
    | string s' =>
      exact ((Told.literal (Script.literal_quoted s) (Script.literal_quoted s')).mono
        (congrArg string)).toldWord
    | _ => exact toldWord_of_lead_ne depth hj hk (by simp [lead])
  | .array [], hj, k, hk => by
    cases k with
    | array items =>
      cases items with
      | nil => exact ((Told.same _).mono fun _ => rfl).toldWord
      | cons k ks => exact (told_array_cons_nil depth k ks).2.toldWord
    | _ => exact toldWord_of_lead_ne depth hj hk (by simp [lead])
  | .array (j :: js), hj, k, hk => by
    cases k with
    | array items =>
      cases items with
      | nil => exact (told_array_cons_nil depth j js).1.toldWord
      | cons k ks =>
        have hitem := toldWord_prettyAt (depth + 1) j hj.1 k hk.1
        have hitems := told_prettyItems (depth + 1) depth "]" js hj.2 ks hk.2
        have htold := (told_item hitem (stops_prettyItems _ _ js _) (stops_prettyItems _ _ ks _)
          hitems).after "["
        simp only [prettyAt, String.append_assoc]
        exact (htold.mono (congrArg array)).toldWord
    | _ => exact toldWord_of_lead_ne depth hj hk (by simp [lead])
  | .object [], hj, k, hk => by
    cases k with
    | object members =>
      cases members with
      | nil => exact ((Told.same _).mono fun _ => rfl).toldWord
      | cons n ns => exact (told_object_cons_nil depth n ns).2.toldWord
    | _ => exact toldWord_of_lead_ne depth hj hk (by simp [lead])
  | .object ((key, j) :: ms), hj, k, hk => by
    cases k with
    | object members =>
      cases members with
      | nil => exact (told_object_cons_nil depth (key, j) ms).1.toldWord
      | cons n ns =>
        obtain ⟨key', k⟩ := n
        have hmember := toldWord_prettyAt (depth + 1) j hj.1 k hk.1
        have hmembers := told_prettyMembers (depth + 1) depth "\x7d" ms hj.2 ns hk.2
        have htold := (told_member key key' hmember (stops_prettyMembers _ _ ms _)
          (stops_prettyMembers _ _ ns _) hmembers).after "\x7b"
        simp only [prettyAt, String.append_assoc]
        exact (htold.mono (congrArg object)).toldWord
    | _ => exact toldWord_of_lead_ne depth hj hk (by simp [lead])
  termination_by structural j => j

/-- Further items of an array and its end. -/
theorem told_prettyItems (depth depth' : Nat) (stop : String) : (js : List Json) →
    ProperItems js → (ks : List Json) → ProperItems ks →
    Told (prettyItems depth js ++ (newline depth' ++ stop))
      (prettyItems depth ks ++ (newline depth' ++ stop)) (js = ks)
  | [], _, ks, _ => by
    cases ks with
    | nil => exact (Told.same _).mono fun _ => rfl
    -- the line ends here on the one side, and goes on with a comma on the other
    | cons k ks =>
      exact .differ (starts_newline depth' stop) (starts_prettyItems depth k ks _) (by decide)
  | j :: js, hj, ks, hk => by
    cases ks with
    | nil =>
      exact .differ (starts_prettyItems depth j js _) (starts_newline depth' stop) (by decide)
    | cons k ks =>
      have hitem := toldWord_prettyAt depth j hj.1 k hk.1
      have hitems := told_prettyItems depth depth' stop js hj.2 ks hk.2
      simp only [prettyItems, String.append_assoc]
      exact (told_item hitem (stops_prettyItems _ _ js _) (stops_prettyItems _ _ ks _)
        hitems).after ","
  termination_by structural js => js

/-- Further members of an object and its end. -/
theorem told_prettyMembers (depth depth' : Nat) (stop : String) : (ms : Members) →
    ProperMembers ms → (ns : Members) → ProperMembers ns →
    Told (prettyMembers depth ms ++ (newline depth' ++ stop))
      (prettyMembers depth ns ++ (newline depth' ++ stop)) (ms = ns)
  | [], _, ns, _ => by
    cases ns with
    | nil => exact (Told.same _).mono fun _ => rfl
    -- the line ends here on the one side, and goes on with a comma on the other
    | cons n ns =>
      exact .differ (starts_newline depth' stop) (starts_prettyMembers depth n ns _) (by decide)
  | (key, j) :: ms, hm, ns, hn => by
    cases ns with
    | nil =>
      exact .differ (starts_prettyMembers depth (key, j) ms _) (starts_newline depth' stop)
        (by decide)
    | cons n ns =>
      obtain ⟨key', k⟩ := n
      have hmember := toldWord_prettyAt depth j hm.1 k hn.1
      have hmembers := told_prettyMembers depth depth' stop ms hm.2 ns hn.2
      simp only [prettyMembers, String.append_assoc]
      exact (told_member key key' hmember (stops_prettyMembers _ _ ms _)
        (stops_prettyMembers _ _ ns _) hmembers).after ","
  termination_by structural ms => ms

end

end Promptwright.Json
