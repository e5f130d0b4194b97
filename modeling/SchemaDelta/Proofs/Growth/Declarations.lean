import SchemaDelta.Proofs.Graph.Subjects
import SchemaDelta.Proofs.Lists

/-!
Type systems that grow. Definitions are added to a type system, and fields, input fields, arguments
and enum values to its definitions, and nothing else is changed. No definition is added that has the
name of a built-in scalar, which would take the place of that scalar.

What is added to the outline stands by itself: a mention that is added is one by an element or a
definition that is added too.
-/

namespace SchemaDelta

/-! ## Growth -/

/-- Whether one list has the elements of another, each of them grown, and perhaps more, wherever
they stand. -/
def Grown {α : Type} (R : α → α → Prop) (as bs : List α) : Prop :=
  ∃ kept added, bs.Perm (kept ++ added) ∧ List.Forall₂ R as kept

/-- Whether a field has become another by more arguments. -/
structure Field.Grows (f g : Field) : Prop where
  arguments : Grown Eq f.arguments g.arguments
  rest : { f with arguments := g.arguments } = g

/-- Whether the contents of a type have become others by more fields or values. -/
inductive TypeBody.Grows : TypeBody → TypeBody → Prop where
  | object {interfaces : List String} {fields fields' : List Field}
    (h : Grown Field.Grows fields fields') :
    Grows (.object interfaces fields) (.object interfaces fields')
  | interface {interfaces : List String} {fields fields' : List Field}
    (h : Grown Field.Grows fields fields') :
    Grows (.interface interfaces fields) (.interface interfaces fields')
  | union (members : List String) : Grows (.union members) (.union members)
  | inputObject {fields fields' : List InputValue} (h : Grown Eq fields fields') :
    Grows (.inputObject fields) (.inputObject fields')
  | enum {values values' : List EnumValue} (h : Grown Eq values values') :
    Grows (.enum values) (.enum values')
  | scalar : Grows .scalar .scalar

/-- Whether a type has become another by more contents. -/
structure TypeDefinition.Grows (d e : TypeDefinition) : Prop where
  body : d.body.Grows e.body
  rest : { d with body := e.body } = e

/-- Whether the definition of a directive has become another by more arguments. -/
structure DirectiveDefinition.Grows (d e : DirectiveDefinition) : Prop where
  arguments : Grown Eq d.arguments e.arguments
  rest : { d with arguments := e.arguments } = e

/-- Whether a type system has become another by more definitions and more in its definitions. -/
structure TypeSystem.Grows (old new : TypeSystem) : Prop where
  types : Grown TypeDefinition.Grows old.types.entries new.types.entries
  directives : Grown DirectiveDefinition.Grows old.directives.entries new.directives.entries
  /-- No type is added with the name of a built-in scalar. -/
  builtIn : ∀ d ∈ new.types.entries, isBuiltIn d.name = true → d.name ∈ old.types.names

/-- Growth of definitions with different names: each is there still, and the added ones have other
names. -/
theorem Grown.exists_added {α : Type} {R : α → α → Prop} {name : α → String}
    {c c' : Catalog α name} (h : Grown R c.entries c'.entries)
    (hname : ∀ a b, R a b → name a = name b) : ∃ kept added,
      c'.entries.Perm (kept ++ added) ∧ List.Forall₂ R c.entries kept ∧
        ∀ a ∈ added, c.find? (name a) = none := by
  obtain ⟨kept, added, hperm, hkept⟩ := h
  refine ⟨kept, added, hperm, hkept, fun a ha => ?_⟩
  have hnodup := (hperm.map name).nodup_iff.1 c'.distinct
  rw [List.map_append, ← map_eq_of_forall₂ hkept hname] at hnodup
  rw [Catalog.find?_eq_none_iff]
  exact fun hmem => List.disjoint_of_nodup_append hnodup hmem (List.mem_map_of_mem ha)

theorem Grown.exists_related {α : Type} {R : α → α → Prop} {as bs : List α} (h : Grown R as bs)
    {a : α} (ha : a ∈ as) : ∃ b ∈ bs, R a b := by
  obtain ⟨kept, added, hperm, hkept⟩ := h
  obtain ⟨b, hb, hab⟩ := exists_mem_right_of_forall₂ hkept ha
  exact ⟨b, hperm.mem_iff.2 (List.mem_append_left _ hb), hab⟩

/-! ## What stands by itself -/

/-- Whether all mentions among entries are made by elements among them, or at the given roots. -/
structure AreHeld (roots : Place → Prop) (entries : List Entry) : Prop where
  held : ∀ source name role, .mention source name role ∈ entries →
    roots source ∨ ∃ owner label v, .element owner label v ∈ entries ∧ v.place = source

namespace AreHeld

variable {roots : Place → Prop} {entries more : List Entry}

theorem nil : AreHeld roots [] :=
  ⟨fun _ _ _ h => absurd h List.not_mem_nil⟩

theorem append (h : AreHeld roots entries) (hmore : AreHeld roots more) :
    AreHeld roots (entries ++ more) where
  held source name role hmem := by
    rcases List.mem_append.1 hmem with hmem | hmem
    · rcases h.held source name role hmem with hroot | ⟨owner, label, v, hv, hplace⟩
      · exact Or.inl hroot
      · exact Or.inr ⟨owner, label, v, List.mem_append_left _ hv, hplace⟩
    · rcases hmore.held source name role hmem with hroot | ⟨owner, label, v, hv, hplace⟩
      · exact Or.inl hroot
      · exact Or.inr ⟨owner, label, v, List.mem_append_right _ hv, hplace⟩

theorem flatMap {α : Type} {f : α → List Entry} (as : List α)
    (h : ∀ a ∈ as, AreHeld roots (f a)) : AreHeld roots (as.flatMap f) := by
  induction as with
  | nil => exact nil
  | cons a as ih =>
    exact (h a List.mem_cons_self).append (ih fun b hb => h b (List.mem_cons_of_mem a hb))

theorem element (owner : Place) (label : String) (v : Vertex) :
    AreHeld roots [.element owner label v] :=
  ⟨fun _ _ _ h => nomatch List.mem_singleton.1 h⟩

/-- An element with a mention that it makes. -/
theorem elementMention (owner : Place) (label name : String) (v : Vertex) (role : MentionRole) :
    AreHeld roots [.element owner label v, .mention v.place name role] where
  held source name' role' hmem := by
    simp only [List.mem_cons, reduceCtorEq, List.not_mem_nil, or_false, false_or] at hmem
    cases hmem
    exact Or.inr ⟨owner, label, v, List.mem_cons_self, rfl⟩

theorem applicationEntries (owner : Place) (before : List String)
    (directives : List AppliedDirective) :
    AreHeld roots (applicationEntries owner before directives) := by
  induction directives generalizing before with
  | nil => exact nil
  | cons d directives ih =>
    exact (elementMention owner Label.appliedDirective d.name
      (d.vertex owner (before.count d.name)) .directive).append (ih (d.name :: before))

theorem inputValue (owner : Place) (kind : ElementKind) (label : String) (value : InputValue) :
    AreHeld roots (value.entries owner kind label) :=
  (elementMention ..).append (applicationEntries _ [] value.directives)

theorem field (owner : Place) (f : Field) : AreHeld roots (f.entries owner) :=
  (elementMention ..).append
    ((flatMap _ fun _ _ => inputValue ..).append (applicationEntries _ [] f.directives))

theorem enumValue (owner : Place) (value : EnumValue) : AreHeld roots (value.entries owner) :=
  (element ..).append (applicationEntries _ [] value.directives)

theorem of_isOutline {root : Place} (h : IsOutline root entries) (hroot : roots root) :
    AreHeld roots entries where
  held source name role hmem := by
    rcases h.held _ hmem with heq | hheld
    · exact Or.inl ((show source = root from heq) ▸ hroot)
    · exact Or.inr hheld

end AreHeld

/-! ## What is added to the outline -/

/-- Whether entries have become others by more of them that stand by themselves. -/
def EntriesGrow (roots : Place → Prop) (entries entries' : List Entry) : Prop :=
  ∃ added, entries'.Perm (entries ++ added) ∧ AreHeld roots added

namespace EntriesGrow

variable {roots : Place → Prop} {entries entries' more more' : List Entry}

theorem refl (entries : List Entry) : EntriesGrow roots entries entries :=
  ⟨[], by simp, .nil⟩

theorem append (h : EntriesGrow roots entries entries') (hmore : EntriesGrow roots more more') :
    EntriesGrow roots (entries ++ more) (entries' ++ more') := by
  obtain ⟨added, hperm, hheld⟩ := h
  obtain ⟨added', hperm', hheld'⟩ := hmore
  refine ⟨added ++ added', (hperm.append hperm').trans ?_, hheld.append hheld'⟩
  simp only [List.append_assoc]
  exact ((List.perm_append_comm_assoc added more added').append_left entries)

/-- To add elements to a list adds what they have inside. -/
theorem flatMap {α : Type} {R : α → α → Prop} {f : α → List Entry} {as kept added : List α}
    (hkept : List.Forall₂ R as kept) (hR : ∀ a b, R a b → EntriesGrow roots (f a) (f b))
    (hadded : ∀ a ∈ added, AreHeld roots (f a)) :
    EntriesGrow roots (as.flatMap f) ((kept ++ added).flatMap f) := by
  induction hkept with
  | nil => exact ⟨added.flatMap f, .refl _, .flatMap added hadded⟩
  | cons hab _ ih => exact (hR _ _ hab).append ih

theorem of_perm (h : EntriesGrow roots entries entries') {entries'' : List Entry}
    (hperm : entries''.Perm entries') : EntriesGrow roots entries entries'' := by
  obtain ⟨added, hperm', hheld⟩ := h
  exact ⟨added, hperm.trans hperm', hheld⟩

theorem of_grown {α : Type} {R : α → α → Prop} {f : α → List Entry} {as bs : List α}
    (h : Grown R as bs) (hR : ∀ a b, R a b → EntriesGrow roots (f a) (f b))
    (hheld : ∀ a, AreHeld roots (f a)) : EntriesGrow roots (as.flatMap f) (bs.flatMap f) := by
  obtain ⟨kept, added, hperm, hkept⟩ := h
  exact (flatMap hkept hR fun a _ => hheld a).of_perm (hperm.flatMap_right f)

theorem of_grown_eq {α : Type} {f : α → List Entry} {as bs : List α} (h : Grown Eq as bs)
    (hheld : ∀ a, AreHeld roots (f a)) : EntriesGrow roots (as.flatMap f) (bs.flatMap f) :=
  of_grown h (fun a _ hab => hab ▸ refl (f a)) hheld

end EntriesGrow

section Definitions

variable {roots : Place → Prop}

theorem Field.Grows.entriesGrow {f g : Field} (h : f.Grows g) (owner : Place) :
    EntriesGrow roots (f.entries owner) (g.entries owner) := by
  rw [← h.rest]
  exact (EntriesGrow.refl [_, _]).append
    ((EntriesGrow.of_grown_eq h.arguments fun _ => .inputValue ..).append (.refl _))

theorem TypeBody.Grows.kind_eq {b c : TypeBody} (h : b.Grows c) : b.kind = c.kind := by
  cases h <;> rfl

theorem TypeBody.Grows.entriesGrow {b c : TypeBody} (h : b.Grows c) (owner : Place) :
    EntriesGrow roots (b.entries owner) (c.entries owner) := by
  cases h with
  | object hfields | interface hfields =>
    exact (EntriesGrow.refl _).append
      (.of_grown hfields (fun _ _ hfield => hfield.entriesGrow owner) fun f => .field owner f)
  | union members => exact .refl _
  | inputObject hfields => exact .of_grown_eq hfields fun _ => .inputValue ..
  | enum hvalues => exact .of_grown_eq hvalues fun value => .enumValue owner value
  | scalar => exact .refl _

namespace TypeDefinition.Grows

variable {d e : TypeDefinition} (h : d.Grows e)

include h

theorem name_eq : d.name = e.name := by
  rw [← h.rest]

theorem vertex_eq : d.vertex = e.vertex := by
  rw [← h.rest]
  simp only [vertex, h.body.kind_eq]

theorem place_eq : d.place = e.place := by
  rw [place, place, h.body.kind_eq, h.name_eq]

theorem entriesGrow : EntriesGrow roots d.entries e.entries := by
  have hdirectives : d.directives = e.directives := by rw [← h.rest]
  rw [entries, entries, ← h.place_eq, hdirectives]
  exact (EntriesGrow.refl _).append (h.body.entriesGrow d.place)

end TypeDefinition.Grows

namespace DirectiveDefinition.Grows

variable {d e : DirectiveDefinition} (h : d.Grows e)

include h

theorem name_eq : d.name = e.name := by
  rw [← h.rest]

theorem vertex_eq : d.vertex = e.vertex := by
  rw [← h.rest]
  rfl

theorem entriesGrow : EntriesGrow roots d.entries e.entries := by
  rw [entries, entries, h.name_eq]
  exact .of_grown_eq h.arguments fun _ => .inputValue ..

end DirectiveDefinition.Grows

end Definitions

/-! ## Type systems -/

/-- The places of the definitions that one type system has and another has not. -/
inductive TypeSystem.IsAdded (old new : TypeSystem) : Place → Prop where
  | type {d : TypeDefinition} (h : d ∈ new.types.entries) (hnew : old.type? d.name = none) :
    IsAdded old new d.place
  | directive {d : DirectiveDefinition} (h : d ∈ new.directives.entries)
    (hnew : old.directive? d.name = none) : IsAdded old new (directivePlace d.name)

namespace TypeSystem.Grows

variable {old new : TypeSystem} (h : old.Grows new)

include h

theorem entriesGrow : EntriesGrow (old.IsAdded new) old.entries new.entries := by
  obtain ⟨types, addedTypes, htypes, hgrow, hnew⟩ := h.types.exists_added fun _ _ hd => hd.name_eq
  obtain ⟨directives, addedDirectives, hdirectives, hgrow', hnew'⟩ :=
    h.directives.exists_added fun _ _ hd => hd.name_eq
  refine .append (.of_perm (.flatMap hgrow (fun _ _ hd => hd.entriesGrow) fun d hd => ?_)
    (htypes.flatMap_right _)) (.of_perm (.flatMap hgrow' (fun _ _ hd => hd.entriesGrow)
      fun d hd => ?_) (hdirectives.flatMap_right _))
  · exact .of_isOutline (.typeDefinition d)
      (.type (htypes.mem_iff.2 (List.mem_append_right _ hd)) (hnew d hd))
  · exact .of_isOutline (.directiveDefinition d)
      (.directive (hdirectives.mem_iff.2 (List.mem_append_right _ hd)) (hnew' d hd))

theorem mem_entries {entry : Entry} (hmem : entry ∈ old.entries) : entry ∈ new.entries := by
  obtain ⟨added, hperm, -⟩ := h.entriesGrow
  exact hperm.mem_iff.2 (List.mem_append_left _ hmem)

theorem exists_type? {name : String} {d : TypeDefinition} (hd : old.type? name = some d) :
    ∃ e, new.type? name = some e ∧ d.Grows e := by
  obtain ⟨hmem, rfl⟩ := Catalog.find?_eq_some_iff.1 hd
  obtain ⟨e, he, hgrows⟩ := h.types.exists_related hmem
  exact ⟨e, Catalog.find?_eq_some_iff.2 ⟨he, hgrows.name_eq.symm⟩, hgrows⟩

theorem exists_directive? {name : String} {d : DirectiveDefinition}
    (hd : old.directive? name = some d) : ∃ e, new.directive? name = some e ∧ d.Grows e := by
  obtain ⟨hmem, rfl⟩ := Catalog.find?_eq_some_iff.1 hd
  obtain ⟨e, he, hgrows⟩ := h.directives.exists_related hmem
  exact ⟨e, Catalog.find?_eq_some_iff.2 ⟨he, hgrows.name_eq.symm⟩, hgrows⟩

/-- Built-in scalars that are not defined stay so. -/
theorem type?_eq_none {name : String} (hnone : old.type? name = none)
    (hbuiltIn : isBuiltIn name = true) : new.type? name = none := by
  refine Option.eq_none_iff_forall_ne_some.2 fun e he => ?_
  obtain ⟨hmem, rfl⟩ := Catalog.find?_eq_some_iff.1 he
  exact Catalog.find?_eq_none_iff.1 hnone (h.builtIn e hmem hbuiltIn)

end TypeSystem.Grows

end SchemaDelta
