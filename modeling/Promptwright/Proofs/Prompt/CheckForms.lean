import Promptwright.Proofs.Document.Order
import Promptwright.Proofs.Prompt.Checks

/-!
# The two forms of checks

Checks are given as an object that leads from ids to options, or as a list of objects that have the
id among the options, at any place.  Both forms mean the same: options are read, whatever order they
have, and those of a custom check are kept.

## Key results

- `agree_resolveCheck`: the order of the members of a check does not matter
- `KeepsOptions`: a check is the one that its id and its options ask for
- `resolveChecks_either_form`: checks in either form
-/

namespace Promptwright

open Json (Members)

/-! ## Equal checks -/

/-- Two checks look for the same, if the order of the options of custom checks is ignored. -/
inductive CheckKind.SameUpToOrder : CheckKind → CheckKind → Prop
  | same (kind : CheckKind) : SameUpToOrder kind kind
  | custom {id : String} {model : Option String} {options options' : Members}
      (h : options.Perm options') :
      SameUpToOrder (.custom id model options) (.custom id model options')

/-- Two checks are equal, if the order of the options of custom checks is ignored. -/
structure Check.SameUpToOrder (c c' : Check) : Prop where
  name : c.name = c'.name
  kind : c.kind.SameUpToOrder c'.kind

/-- The options that are given under an id.  Null stands for none. -/
def Json.optionsOf : Json → Members
  | .object ms => ms
  | _ => []

/-- A check is the one that an entry asks for: it has the id of the entry and the name among its
options.  Under an id that is not built in it is a custom check, with the model among its options and
with all other options, as they are given.  The id is not among the given options. -/
structure KeepsOptions (entry : String × Json) (c : Check) : Prop where
  id : c.id = entry.1
  name : c.name = (Members.lookup entry.2.optionsOf "name").bind Json.string?
  custom : entry.1 ∉ CheckKind.builtinIds → ∃ options, c.kind =
      .custom entry.1 ((Members.lookup entry.2.optionsOf "model").bind Json.string?) options ∧
    options.Perm (entry.2.optionsOf.filter fun m => m.1 ≠ "name" ∧ m.1 ≠ "model")

/-- Equal checks have the same id. -/
theorem Check.SameUpToOrder.id_eq {c c' : Check} (h : c.SameUpToOrder c') : c.id = c'.id := by
  have hkind := h.kind
  rw [Check.id, Check.id]
  generalize c.kind = kind at hkind
  generalize c'.kind = kind' at hkind
  cases hkind with
  | same => rfl
  | custom _ => rfl

/-- Equal checks keep the same options. -/
theorem Check.SameUpToOrder.keepsOptions {entry : String × Json} {c c' : Check}
    (h : c.SameUpToOrder c') (hc' : KeepsOptions entry c') : KeepsOptions entry c := by
  refine ⟨h.id_eq.trans hc'.id, h.name.trans hc'.name, fun hcustom => ?_⟩
  obtain ⟨options', hkind', hperm⟩ := hc'.custom hcustom
  have hsame := h.kind
  rw [hkind'] at hsame
  generalize c.kind = kind at hsame
  cases hsame with
  | same => exact ⟨options', rfl, hperm⟩
  | @custom _ _ options _ hoptions => exact ⟨options, rfl, hoptions.trans hperm⟩

namespace Origin

variable (o : Origin)

/-! ## Options in any order -/

section Options

variable {options options' : Members}

/-- Options of a built-in check that are read alike. -/
theorem both_checkOptions {α : Type} {E : Mismatch → Mismatch → Prop}
    {E' : LoadError → LoadError → Prop} {R : α → α → Prop} {r : Record α} {id : String}
    (hE : ∀ m m', E m m' →
      E' (.invalid o.file (.misfitCheck id m)) (.invalid o.file (.misfitCheck id m')))
    (h : Both E R (r.read .value (Node.ofJson (.object options)))
      (r.read .value (Node.ofJson (.object options')))) :
    Both E' R (o.checkOptions id r options) (o.checkOptions id r options') := by
  unfold checkOptions
  generalize r.read .value (Node.ofJson (.object options)) = x at h ⊢
  generalize r.read .value (Node.ofJson (.object options')) = y at h ⊢
  cases h with
  | ok h => exact .ok h
  | error h => exact .error (hE _ _ h)

/-- The options of a built-in check can have any order. -/
theorem agree_checkOptions {α : Type} {r : Record α} (hr : r.Unordered) (id : String)
    (h : options.Perm options') :
    Agree Eq (o.checkOptions id r options) (o.checkOptions id r options') := by
  have hentries : (Node.ofMembers options).Perm (Node.ofMembers options') := by
    rw [Node.ofMembers_eq_map, Node.ofMembers_eq_map]
    exact h.map _
  have hsrc : ∀ yaml, Source.value ≠ .aside yaml := nofun
  have hread : Agree Eq (r.read .value (Node.ofJson (.object options)))
      (r.read .value (Node.ofJson (.object options'))) :=
    Record.agree_readMapping hr hsrc hentries
  exact o.both_checkOptions (fun _ _ _ => trivial) hread

/-- What a check looks for does not depend on the order of its options. -/
theorem agree_resolveKind (id : String) (hkeys : options.keys.Nodup) (h : options.Perm options') :
    Agree CheckKind.SameUpToOrder (o.resolveKind id options) (o.resolveKind id options') := by
  unfold resolveKind
  -- a built-in check puts each option in a place of its own
  split
  · have hr : CheckOptions.exactMatch.Unordered :=
      List.pairwise_pair.mpr (Field.commute_put fun _ _ _ => rfl)
    apply (o.agree_checkOptions hr id h).bind
    rintro ⟨value, caseInsensitive⟩ _ rfl
    exact .ok (.same _)
  split
  · have hr : CheckOptions.toolCalls.Unordered := List.pairwise_singleton _ _
    apply (o.agree_checkOptions hr id h).bind
    rintro calls _ rfl
    exact .ok (.same _)
  split
  · have hr : CheckOptions.structuredOutput.Unordered := List.pairwise_singleton _ _
    apply (o.agree_checkOptions hr id h).bind
    rintro result _ rfl
    exact Both.refl (fun _ => trivial) .same _
  split
  · have hr : CheckOptions.profanity.Unordered :=
      List.pairwise_pair.mpr (Field.commute_put fun _ _ _ => rfl)
    apply (o.agree_checkOptions hr id h).bind
    rintro ⟨model, forbidden⟩ _ rfl
    exact Both.refl (fun _ => trivial) .same _
  split
  · have hr : CheckOptions.aligned.Unordered :=
      List.pairwise_pair.mpr (Field.commute_put fun _ _ _ => rfl)
    apply (o.agree_checkOptions hr id h).bind
    rintro ⟨model, instructions⟩ _ rfl
    exact .ok (.same _)
  -- a custom check: its model is taken out of the same options
  have hrest := Members.remove_perm hkeys h "model"
  rw [Members.lookup_eq_of_perm hkeys h]
  split
  · exact .ok (.custom hrest)
  · exact .ok (.custom hrest)
  · exact .ok (.custom hrest)
  · exact .error trivial

end Options

/-- A check does not depend on the order of its members. -/
theorem agree_resolveCheck {ms ms' : Members} (hkeys : ms.keys.Nodup) (h : ms.Perm ms') :
    Agree Check.SameUpToOrder (o.resolveCheck (.object ms)) (o.resolveCheck (.object ms')) := by
  unfold resolveCheck
  dsimp only
  rw [Members.lookup_eq_of_perm hkeys h]
  split
  · next id _ =>
    -- the id and the name are taken out in turn, and what is left is still the same up to order
    have hoptions := Members.remove_perm hkeys h "id"
    have hkeys' := (Members.nodup_keys_remove hkeys "id").2
    have hrest := Members.remove_perm hkeys' hoptions "name"
    have hkind := o.agree_resolveKind id (Members.nodup_keys_remove hkeys' "name").2 hrest
    rw [Members.lookup_eq_of_perm hkeys' hoptions]
    split
    · exact hkind.bind fun _ _ hk => .ok ⟨rfl, hk⟩
    · exact hkind.bind fun _ _ hk => .ok ⟨rfl, hk⟩
    · exact hkind.bind fun _ _ hk => .ok ⟨rfl, hk⟩
    · exact .error trivial
  · exact .error trivial

/-! ## The options of a check -/

variable {o}

/-- A check keeps the options beside its id. -/
theorem keepsOptions_of_resolveCheck {id : String} {ms options : Members} {c : Check}
    (hkeys : options.keys.Nodup) (hid : "id" ∉ options.keys)
    (hms : ms.Perm (("id", .string id) :: options)) (h : o.resolveCheck (.object ms) = .ok c) :
    KeepsOptions (id, .object options) c := by
  obtain ⟨_, id', hobject, hid', hname, hkind⟩ := resolveCheck_eq_ok h
  cases hobject
  have hnodup : ms.keys.Nodup :=
    (hms.map Prod.fst).nodup_iff.mpr (List.nodup_cons.mpr ⟨hid, hkeys⟩)
  obtain ⟨hnoid, hnodup'⟩ := Members.nodup_keys_remove hnodup "id"
  obtain ⟨hnoname, hnodup''⟩ := Members.nodup_keys_remove hnodup' "name"
  obtain rfl : id = id' := by
    rw [Members.lookup_eq_of_perm hnodup hms] at hid'
    exact Json.string.inj (Option.some.inj hid')
  -- under the other keys stands what is given
  have hgiven : ∀ {key : String}, key ≠ "id" →
      Members.lookup (ms.remove "id") key = Members.lookup options key := by
    intro key hne
    rw [Members.lookup_remove_of_ne hnodup hne, Members.lookup_eq_of_perm hnodup hms,
      Members.lookup, List.lookup_cons, beq_false_of_ne hne]
    rfl
  rw [hgiven (by decide)] at hname
  refine ⟨(hkind.proper hnodup'' (Members.not_mem_keys_remove hnoid "name") hnoname).1, hname,
    fun hcustom => ⟨((ms.remove "id").remove "name").remove "model", ?_, ?_⟩⟩
  · rw [hkind.eq_custom hcustom, Members.lookup_remove_of_ne hnodup' (by decide),
      hgiven (by decide)]
    rfl
  -- one key after the other is taken out
  have hwithoutId : (ms.remove "id").Perm options := by
    have hfilter := (Members.remove_perm_filter hnodup "id").trans (hms.filter _)
    rwa [List.filter_cons_of_neg (by simp), Members.filter_ne_eq_self hid] at hfilter
  have hwithoutName := (Members.remove_perm_filter hnodup' "name").trans (hwithoutId.filter _)
  have hwithoutModel := (Members.remove_perm_filter hnodup'' "model").trans (hwithoutName.filter _)
  rw [List.filter_filter] at hwithoutModel
  -- what is left are the options without a name and without a model
  refine hwithoutModel.trans (.of_eq ?_)
  apply List.filter_congr
  intro m _
  simp [and_comm]

end Origin

/-! ## Either form -/

/-- An id with its options, and an object that has the id among the same options, at any place.  Null
stands for no options. -/
inductive SameEntry : String × Json → Json → Prop
  | options {id : String} {options ms : Members} (hkeys : options.keys.Nodup)
      (hid : "id" ∉ options.keys) (h : ms.Perm (("id", .string id) :: options)) :
      SameEntry (id, .object options) (.object ms)
  | null {id : String} : SameEntry (id, .null) (.object [("id", .string id)])

section Forms

variable {o : Origin} {entry : String × Json} {item : Json} {c : Check}

/-- An entry and an object that stand for the same check. -/
theorem SameEntry.agree (h : SameEntry entry item) :
    Agree Check.SameUpToOrder (o.resolveEntry entry) (o.resolveCheck item) := by
  cases h with
  | null => exact Both.refl (fun _ => trivial) (fun c => ⟨rfl, .same _⟩) _
  | @options id options ms hkeys hid hms =>
    -- an entry is resolved with its id at the end of the options
    rw [Origin.resolveEntry, Members.insert_of_not_mem hid]
    apply o.agree_resolveCheck
    · rw [Members.keys_append]
      exact hkeys.append (List.nodup_singleton _) (by simpa [Members.keys] using hid)
    · exact (List.perm_append_singleton _ _).trans hms.symm

/-- The check of an object keeps its options. -/
theorem SameEntry.keepsOptions (h : SameEntry entry item) (hc : o.resolveCheck item = .ok c) :
    KeepsOptions entry c := by
  cases h with
  | options hkeys hid hms => exact Origin.keepsOptions_of_resolveCheck hkeys hid hms hc
  | @null id =>
    have hkeys : Members.keys [] = [] := rfl
    have hkeep : KeepsOptions (id, .object []) c :=
      Origin.keepsOptions_of_resolveCheck (by simp [hkeys]) (by simp [hkeys]) (.refl _) hc
    exact ⟨hkeep.id, hkeep.name, hkeep.custom⟩

/-- Checks that are given as an object that leads from ids to options, or as a list of the same options
with the id among them.  Both forms are accepted or both are refused.  If they are accepted they give
the same checks in the same order, and each custom check keeps its options. -/
theorem resolveChecks_either_form (o : Origin) {entries : Members} {items : List Json}
    (h : List.Forall₂ SameEntry entries items) :
    Agree (List.Forall₂ Check.SameUpToOrder) (o.resolveChecks (some (.object entries)))
        (o.resolveChecks (some (.array items))) ∧
      ∀ checks, o.resolveChecks (some (.object entries)) = .ok checks ∨
        o.resolveChecks (some (.array items)) = .ok checks →
          List.Forall₂ KeepsOptions entries checks := by
  have hagree : Agree (List.Forall₂ Check.SameUpToOrder) (o.resolveChecks (some (.object entries)))
      (o.resolveChecks (some (.array items))) := Both.mapM (h.imp fun _ _ hentry => hentry.agree)
  have hitems : ∀ checks, o.resolveChecks (some (.array items)) = .ok checks →
      List.Forall₂ KeepsOptions entries checks := by
    intro checks hchecks
    have hpartners := forall₂_comp h (mapM_eq_ok hchecks)
    exact hpartners.imp fun _ _ ⟨_, hentry, hc⟩ => hentry.keepsOptions hc
  refine ⟨hagree, ?_⟩
  rintro checks (hchecks | hchecks)
  · -- the other form is accepted too, and its checks are equal to these
    obtain ⟨checks', hchecks', hsame⟩ := hagree.exists_eq_ok hchecks
    have hpartners := forall₂_comp (hitems checks' hchecks') hsame.flip
    exact hpartners.imp fun _ _ ⟨_, hkeep, hequal⟩ => hequal.keepsOptions hkeep
  · exact hitems checks hchecks

end Forms

/-- A custom check with a name and a model, a check for instructions, and a check without options. -/
def tonedEntries : Members := [
  ("tone", .object [
    ("model", .string "open@large"), ("strict", .null), ("name", .string "calm")]),
  ("aligned", .object [("instructions", .string "Be kind.")]),
  ("empty", .null)]

/-- The same checks as a list. -/
def tonedItems : List Json := [
  .object [
    ("model", .string "open@large"), ("id", .string "tone"), ("strict", .null),
    ("name", .string "calm")],
  .object [("id", .string "aligned"), ("instructions", .string "Be kind.")],
  .object [("id", .string "empty")]]

/-- The checks that both of them give. -/
def tonedChecks : List Check := [
  ⟨some "calm", .custom "tone" (some "open@large") [("strict", .null)]⟩,
  ⟨none, .aligned none "Be kind."⟩,
  ⟨none, .custom "empty" none []⟩]

/-- A place for the document with these checks. -/
def tonedOrigin : Origin where
  file := "tone.yaml"
  files := ⟨[], []⟩

/-- Both forms are accepted, and give the same checks.  The two custom checks are those of their ids,
with the model and the other options. -/
theorem resolveChecks_either_form_toned :
    List.Forall₂ SameEntry tonedEntries tonedItems ∧
      tonedOrigin.resolveChecks (some (.object tonedEntries)) = .ok tonedChecks ∧
      ∃ checks, tonedOrigin.resolveChecks (some (.array tonedItems)) = .ok checks ∧
        List.Forall₂ Check.SameUpToOrder tonedChecks checks ∧
        List.Forall₂ KeepsOptions tonedEntries tonedChecks ∧
        List.Forall₂ KeepsOptions tonedEntries checks := by
  have hentries : List.Forall₂ SameEntry tonedEntries tonedItems := by
    refine .cons (.options (by decide) (by decide) (.swap _ _ _)) ?_
    refine .cons (.options (by decide) (by decide) (.refl _)) ?_
    exact .cons .null .nil
  obtain ⟨hagree, hkeep⟩ := resolveChecks_either_form tonedOrigin hentries
  have hchecks : tonedOrigin.resolveChecks (some (.object tonedEntries)) = .ok tonedChecks := rfl
  obtain ⟨checks, hchecks', hsame⟩ := hagree.exists_eq_ok hchecks
  exact ⟨hentries, hchecks, checks, hchecks', hsame, hkeep tonedChecks (.inl hchecks),
    hkeep checks (.inr hchecks')⟩

end Promptwright
