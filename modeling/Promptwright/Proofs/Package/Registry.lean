import Mathlib.Data.Finset.Card
import Promptwright.Dialect

/-!
# Dialects that are registered one after the other

A set of dialects answers by the registrations that led to it.  Its names are those that were
registered, each once and in the order in which they came up, and the dialect of a name is the one
of the last registration under it: an earlier one is replaced where it stands.

Sets of dialects are values.  A program may keep all of them and go on from any of them, also from
one that others were made from.  Whatever it does, every set that it has made goes on answering by
its own registrations.

## Key results

- `names_insert`, `get?_insert`: one registration
- `MadeBy`: what a set of dialects answers after some registrations
- `madeBy_insertAll`: any registrations, one after the other
- `forall₂_keepMaking`: one step of a program that keeps all sets
- `answers_persist`: all sets that were made, whatever is made later
-/

namespace Promptwright.Dialects

variable {ds : Dialects} {name : String}

/-! ## One registration -/

/-- A registration under a name that is there keeps all names where they are. -/
theorem names_insert_of_mem (d : Dialect) (h : name ∈ ds.names) :
    (ds.insert name d).names = ds.names := by
  obtain ⟨es⟩ := ds
  show (setEntry name d es).map Prod.fst = es.map Prod.fst
  replace h : name ∈ es.map Prod.fst := h
  induction es with
  | nil => simp at h
  | cons e es ih =>
    obtain ⟨n, x⟩ := e
    by_cases hn : n = name
    · simp [setEntry, hn]
    · -- the name is found behind this entry
      have hrest : name ∈ es.map Prod.fst := by
        rw [List.map_cons, List.mem_cons] at h
        exact h.resolve_left fun e => hn e.symm
      simp [setEntry, hn, ih hrest]

/-- A registration under a new name puts the name behind the others. -/
theorem names_insert_of_not_mem (d : Dialect) (h : name ∉ ds.names) :
    (ds.insert name d).names = ds.names ++ [name] := by
  obtain ⟨es⟩ := ds
  show (setEntry name d es).map Prod.fst = es.map Prod.fst ++ [name]
  replace h : name ∉ es.map Prod.fst := h
  induction es with
  | nil => rfl
  | cons e es ih =>
    obtain ⟨n, x⟩ := e
    rw [List.map_cons, List.mem_cons, not_or] at h
    simp [setEntry, Ne.symm h.1, ih h.2]

/-- A registration adds its name to those that are there. -/
theorem mem_names_insert (d : Dialect) (n : String) :
    n ∈ (ds.insert name d).names ↔ n ∈ ds.names ∨ n = name := by
  by_cases h : name ∈ ds.names
  · rw [names_insert_of_mem d h]
    exact ⟨.inl, fun hn => hn.elim id fun e => e ▸ h⟩
  · rw [names_insert_of_not_mem d h, List.mem_append, List.mem_singleton]

/-- A registration sets the dialect of its name, and of no other. -/
theorem get?_insert (ds : Dialects) (name : String) (d : Dialect) (n : String) :
    (ds.insert name d).get? n = if n = name then some d else ds.get? n := by
  obtain ⟨es⟩ := ds
  show (setEntry name d es).lookup n = if n = name then some d else es.lookup n
  have hcons : ∀ (m : String) (x : Dialect) (es : List (String × Dialect)),
      ((m, x) :: es).lookup n = if n = m then some x else es.lookup n := by
    intro m x es
    by_cases hn : n = m
    · simp [hn]
    · rw [List.lookup_cons, beq_false_of_ne hn, if_neg hn]
  induction es with
  | nil => exact hcons name d []
  | cons e es ih =>
    obtain ⟨m, x⟩ := e
    by_cases hm : m = name
    · -- the entry is replaced, and what is behind it was found before
      simp only [setEntry, hm, ↓reduceIte, hcons]
      split <;> rfl
    · simp only [setEntry, hm, ↓reduceIte, hcons, ih]
      by_cases hn : n = m
      · simp [hn, hm]
      · simp [hn]

/-! ## Registrations one after the other -/

/-- A name and the dialect that it gets. -/
abbrev Registration := String × Dialect

/-- Registers dialects one after the other. -/
def insertAll (ds : Dialects) (rs : List Registration) : Dialects :=
  rs.foldl (fun ds r => ds.insert r.1 r.2) ds

/-- The registrations of the dialects that everyone knows. -/
def builtinRegistrations : List Registration := [
  ("typescript", .typescript),
  ("deno", .deno),
  ("node", .nodeCommonJs),
  ("node-esm", .nodeEsm),
  ("node-cjs", .nodeCommonJs)]

/-- The names that were registered, one for each registration. -/
def registered (rs : List Registration) : List String := rs.map Prod.fst

/-- A registration is the last one under its name. -/
def IsLast (rs : List Registration) (name : String) (d : Dialect) : Prop :=
  ∃ before after, rs = before ++ (name, d) :: after ∧ name ∉ registered after

/-- What a set of dialects answers after some registrations. -/
structure MadeBy (ds : Dialects) (rs : List Registration) : Prop where
  /-- The names are those that were registered, -/
  mem_names : ∀ n, n ∈ ds.names ↔ n ∈ registered rs
  /-- each of them once, -/
  nodup : ds.names.Nodup
  /-- in the order in which they were registered first. -/
  inOrder : ds.names.Pairwise fun m n => (registered rs).idxOf m < (registered rs).idxOf n
  /-- Their number is the size. -/
  size : ds.size = (registered rs).toFinset.card
  /-- A name has no dialect if it was not registered, -/
  missing : ∀ n, ds.get? n = none ↔ n ∉ registered rs
  /-- and else the dialect of its last registration. -/
  found : ∀ n d, ds.get? n = some d ↔ IsLast rs n d

/-- Names in the order of their first registrations are different, and there are as many of them as
were registered. -/
theorem madeBy_of {rs : List Registration} (hmem : ∀ n, n ∈ ds.names ↔ n ∈ registered rs)
    (horder : ds.names.Pairwise fun m n => (registered rs).idxOf m < (registered rs).idxOf n)
    (hmissing : ∀ n, ds.get? n = none ↔ n ∉ registered rs)
    (hfound : ∀ n d, ds.get? n = some d ↔ IsLast rs n d) : ds.MadeBy rs := by
  have hnodup : ds.names.Nodup := horder.imp fun hlt heq => by
    rw [heq] at hlt
    omega
  refine ⟨hmem, hnodup, horder, ?_, hmissing, hfound⟩
  have hsame : (registered rs).toFinset = ds.names.toFinset := by
    ext n
    rw [List.mem_toFinset, List.mem_toFinset, hmem]
  rw [hsame, List.toFinset_card_of_nodup hnodup, size, names, List.length_map]

/-- No dialects have been made by no registrations. -/
theorem madeBy_empty : empty.MadeBy [] :=
  madeBy_of (by simp [names, empty, registered]) .nil (by simp [get?, empty, registered])
    (by simp [get?, empty, IsLast])

variable {rs : List Registration} {n : String} {d x : Dialect}

/-- The names that were registered, with one more. -/
theorem registered_concat (rs : List Registration) (name : String) (d : Dialect) :
    registered (rs ++ [(name, d)]) = registered rs ++ [name] := by
  simp [registered]

/-- The last registration under a name, after one more. -/
theorem isLast_concat :
    IsLast (rs ++ [(name, d)]) n x ↔ if n = name then x = d else IsLast rs n x := by
  constructor
  · rintro ⟨before, after, h, hafter⟩
    obtain rfl | ⟨after, r, rfl⟩ := List.eq_nil_or_concat' after
    · -- the new registration is the one in question
      obtain ⟨-, hlast⟩ := List.append_inj' h rfl
      cases hlast
      simp
    · rw [← List.cons_append, ← List.append_assoc] at h
      obtain ⟨rfl, hlast⟩ := List.append_inj' h rfl
      cases hlast
      rw [registered_concat, List.mem_append, List.mem_singleton, not_or] at hafter
      rw [if_neg hafter.2]
      exact ⟨before, after, rfl, hafter.1⟩
  · split
    · next hn =>
      rintro rfl
      exact ⟨rs, [], by rw [hn], List.not_mem_nil⟩
    · next hn =>
      rintro ⟨before, after, rfl, hafter⟩
      refine ⟨before, after ++ [(name, d)], by simp, ?_⟩
      rw [registered_concat, List.mem_append, List.mem_singleton, not_or]
      exact ⟨hafter, hn⟩

/-- A new registration leaves the order of the names as it is and puts a new name behind them. -/
theorem MadeBy.inOrder_insert (h : ds.MadeBy rs) (name : String) (d : Dialect) :
    (ds.insert name d).names.Pairwise fun m n =>
      (registered rs ++ [name]).idxOf m < (registered rs ++ [name]).idxOf n := by
  -- the names that are there were registered first where they were
  have hidx : ∀ n ∈ ds.names, (registered rs ++ [name]).idxOf n = (registered rs).idxOf n :=
    fun n hn => List.idxOf_append_of_mem ((h.mem_names n).mp hn)
  have hold : ds.names.Pairwise fun m n =>
      (registered rs ++ [name]).idxOf m < (registered rs ++ [name]).idxOf n :=
    h.inOrder.imp_of_mem fun hm hn hlt => by rwa [hidx _ hm, hidx _ hn]
  by_cases hname : name ∈ ds.names
  · rwa [names_insert_of_mem d hname]
  · rw [names_insert_of_not_mem d hname]
    refine List.pairwise_append.mpr ⟨hold, List.pairwise_singleton _ _, fun m hm n hn => ?_⟩
    obtain rfl := List.mem_singleton.mp hn
    have hnew : n ∉ registered rs := fun hmem => hname ((h.mem_names n).mpr hmem)
    have hlt := List.idxOf_lt_length_of_mem ((h.mem_names m).mp hm)
    rw [hidx m hm, List.idxOf_append_of_notMem hnew]
    omega

/-- One more registration. -/
theorem MadeBy.insert (h : ds.MadeBy rs) (name : String) (d : Dialect) :
    (ds.insert name d).MadeBy (rs ++ [(name, d)]) := by
  have horder := h.inOrder_insert name d
  rw [← registered_concat rs name d] at horder
  refine madeBy_of (fun n => ?_) horder (fun n => ?_) (fun n x => ?_)
  · rw [mem_names_insert, registered_concat, List.mem_append, List.mem_singleton, h.mem_names]
  · rw [get?_insert, registered_concat, List.mem_append, List.mem_singleton, not_or]
    by_cases hn : n = name
    · simp [hn]
    · simp [hn, h.missing]
  · rw [isLast_concat, get?_insert]
    split
    · simp [eq_comm]
    · exact h.found n x

/-- Any registrations. -/
theorem MadeBy.insertAll (h : ds.MadeBy rs) (more : List Registration) :
    (ds.insertAll more).MadeBy (rs ++ more) := by
  induction more generalizing ds rs with
  | nil => rwa [List.append_nil]
  | cons r more ih =>
    have hmore := ih (h.insert r.1 r.2)
    rwa [List.append_assoc] at hmore

/-- The dialects that everyone knows have been made by their registrations. -/
theorem madeBy_builtin : builtin.MadeBy builtinRegistrations :=
  madeBy_empty.insertAll builtinRegistrations

/-! ## Programs that keep what they have made -/

/-- A registration in one of the sets of dialects that a program has, known by its number. -/
structure Extension where
  base : Nat
  name : String
  dialect : Dialect

/-- One step of a program that keeps all it has made: it goes on from one of these, if there is one
with the number, and puts what comes of it behind the others. -/
def keepMaking {α : Type} (make : α → Extension → α) (made : List α) (s : Extension) : List α :=
  match made[s.base]? with
  | some a => made ++ [make a s]
  | none => made

/-- All sets of dialects that a program makes.  It starts with the empty one and the one that
everyone knows. -/
def allMade (steps : List Extension) : List Dialects :=
  steps.foldl (keepMaking fun ds s => ds.insert s.name s.dialect) [empty, builtin]

/-- The registrations that lead to each of them. -/
def allHistories (steps : List Extension) : List (List Registration) :=
  steps.foldl (keepMaking fun rs s => rs ++ [(s.name, s.dialect)]) [[], builtinRegistrations]

/-- A step keeps all that was made. -/
theorem prefix_keepMaking {α : Type} (make : α → Extension → α) (made : List α) (s : Extension) :
    made <+: keepMaking make made s := by
  unfold keepMaking
  split
  · exact List.prefix_append _ _
  · exact List.prefix_rfl

/-- So do any steps. -/
theorem prefix_foldl_keepMaking {α : Type} (make : α → Extension → α) (made : List α)
    (steps : List Extension) : made <+: steps.foldl (keepMaking make) made := by
  induction steps generalizing made with
  | nil => exact List.prefix_rfl
  | cons s steps ih => exact (prefix_keepMaking make made s).trans (ih _)

/-- A step makes a set of dialects by the registrations of the one that it goes on from, and one
more. -/
theorem forall₂_keepMaking {made : List Dialects} {histories : List (List Registration)}
    (h : List.Forall₂ MadeBy made histories) (s : Extension) :
    List.Forall₂ MadeBy (keepMaking (fun ds s => ds.insert s.name s.dialect) made s)
      (keepMaking (fun rs s => rs ++ [(s.name, s.dialect)]) histories s) := by
  unfold keepMaking
  by_cases hbase : s.base < made.length
  · have hbase' : s.base < histories.length := h.length_eq ▸ hbase
    rw [List.getElem?_eq_getElem hbase, List.getElem?_eq_getElem hbase']
    exact List.rel_append h (.cons ((h.get hbase hbase').insert s.name s.dialect) .nil)
  · -- there is no such set, and no registrations that lead to it
    have hbase' : ¬s.base < histories.length := h.length_eq ▸ hbase
    rw [List.getElem?_eq_none (by omega), List.getElem?_eq_none (by omega)]
    exact h

/-- All sets of dialects that a program makes answer by the registrations that lead to them. -/
theorem forall₂_allMade (steps : List Extension) :
    List.Forall₂ MadeBy (allMade steps) (allHistories steps) := by
  have hrun : ∀ {made histories}, List.Forall₂ MadeBy made histories →
      List.Forall₂ MadeBy
        (steps.foldl (keepMaking fun ds s => ds.insert s.name s.dialect) made)
        (steps.foldl (keepMaking fun rs s => rs ++ [(s.name, s.dialect)]) histories) := by
    induction steps with
    | nil => exact id
    | cons s steps ih => exact fun h => ih (forall₂_keepMaking h s)
  exact hrun (.cons madeBy_empty (.cons madeBy_builtin .nil))

/-- A set of dialects is an ordered map, and a value.  Whatever is registered, starting with no
dialects or with those that everyone knows, its names are the ones that were registered, each once
and in the order in which they came up, its size is their number, and the dialect of a name is that
of the last registration under it, if there is one.  A program may keep all sets that it makes, and
go on from any of them: each answers by its own registrations, and no step changes one that was made
before. -/
theorem answers_persist :
    (∀ rs : List Registration, (empty.insertAll rs).MadeBy rs ∧
      (builtin.insertAll rs).MadeBy (builtinRegistrations ++ rs)) ∧
    ∀ steps : List Extension, List.Forall₂ MadeBy (allMade steps) (allHistories steps) ∧
      ∀ more : List Extension, allMade steps <+: allMade (steps ++ more) ∧
        allHistories steps <+: allHistories (steps ++ more) := by
  refine ⟨fun rs => ⟨madeBy_empty.insertAll rs, madeBy_builtin.insertAll rs⟩,
    fun steps => ⟨forall₂_allMade steps, fun more => ?_⟩⟩
  rw [allMade, allMade, allHistories, allHistories, List.foldl_append, List.foldl_append]
  exact ⟨prefix_foldl_keepMaking _ _ more, prefix_foldl_keepMaking _ _ more⟩

/-- A new name goes behind the others, and a name that is there gets another dialect in its place. -/
example : allMade [⟨1, "bun", .nodeEsm⟩, ⟨2, "node", .nodeEsm⟩] =
    [empty, builtin, builtin.insert "bun" .nodeEsm,
      (builtin.insert "bun" .nodeEsm).insert "node" .nodeEsm] ∧
    ((builtin.insert "bun" .nodeEsm).insert "node" .nodeEsm).names =
      ["typescript", "deno", "node", "node-esm", "node-cjs", "bun"] := by decide

end Promptwright.Dialects
