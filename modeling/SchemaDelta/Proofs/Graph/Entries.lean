import SchemaDelta.Graph.Build

/-!
What the outline of a type system holds. Every entry stands inside a definition or inside an element
that has an entry of its own, elements own only what fits their kind, and the elements that have a
type are the ones that mention one, each once.
-/

namespace SchemaDelta

/-! ## Kinds -/

/-- Whether elements of one kind can own elements of another, under a label. -/
inductive Owns : ElementKind → String → ElementKind → Prop where
  | objectField : Owns .object Label.field .field
  | interfaceField : Owns .interface Label.field .field
  | inputField : Owns .inputObject Label.inputField .inputField
  | fieldArgument : Owns .field Label.argument .argument
  | directiveArgument : Owns .directive Label.argument .argument
  | enumValue : Owns .enum Label.enumValue .enumValue
  | application {owner : ElementKind} (h : owner ≠ .appliedDirective) :
    Owns owner Label.appliedDirective .appliedDirective

/-- Whether elements of a kind have a type. -/
def ElementKind.hasType : ElementKind → Bool
  | .field | .inputField | .argument => true
  | _ => false

/-- Whether elements of a kind are definitions, which nothing owns. -/
def ElementKind.isDefinition (kind : ElementKind) : Bool :=
  kind.rank ≤ ElementKind.directive.rank

namespace Owns

variable {owner part : ElementKind} {label : String}

theorem isOwnership (h : Owns owner label part) : Label.isOwnership label = true := by
  cases h <;> decide

theorem isImplements (h : Owns owner label part) : Label.isImplements label = false := by
  cases h <;> decide

/-- What owns an element is of a kind that comes before its own. -/
theorem rank_lt (h : Owns owner label part) : owner.rank < part.rank := by
  cases h with
  | application h => cases owner <;> first | decide | exact absurd rfl h
  | _ => decide

theorem isDefinition (h : Owns owner label part) : part.isDefinition = false := by
  cases h <;> rfl

theorem hasFields (h : Owns owner label part) (hpart : part = .field ∨ part = .inputField) :
    owner.hasFields = true := by
  cases h <;> simp_all [ElementKind.hasFields]

end Owns

/-! ## Outlines -/

namespace Entry

/-- The element that an entry says something of: the owner, or what mentions a definition. -/
def holder : Entry → Place
  | element owner _ _ => owner
  | mention source _ _ => source

/-- The element of an entry. -/
def vertex? : Entry → Option Vertex
  | element _ _ v => some v
  | mention .. => none

/-- The element of an entry, if it is of a kind that has a type. -/
def typed? : Entry → Option Place
  | element _ _ v => if v.kind.hasType then some v.place else none
  | mention .. => none

/-- The element whose type an entry mentions. -/
def typeSource? : Entry → Option Place
  | mention source _ (.typeOf _) => some source
  | _ => none

end Entry

/-- Whether entries can make up what is inside an element. -/
structure IsOutline (root : Place) (entries : List Entry) : Prop where
  owns : ∀ owner label v, .element owner label v ∈ entries → Owns owner.kind label v.kind
  /-- Everything is inside the root or inside an element that has an entry. -/
  held : ∀ entry ∈ entries, entry.holder = root ∨
    ∃ owner label v, .element owner label v ∈ entries ∧ v.place = entry.holder
  typed : entries.filterMap Entry.typeSource? = entries.filterMap Entry.typed?

namespace IsOutline

variable {root : Place} {entries more : List Entry} {label : String} {v : Vertex}

theorem nil : IsOutline root [] :=
  ⟨by simp, by simp, rfl⟩

theorem append (h : IsOutline root entries) (hmore : IsOutline root more) :
    IsOutline root (entries ++ more) where
  owns owner label v hmem :=
    (List.mem_append.1 hmem).elim (h.owns owner label v) (hmore.owns owner label v)
  held entry hmem := by
    rcases List.mem_append.1 hmem with hmem | hmem
    · rcases h.held entry hmem with hroot | ⟨owner, label, v, hv, hplace⟩
      · exact Or.inl hroot
      · exact Or.inr ⟨owner, label, v, List.mem_append_left _ hv, hplace⟩
    · rcases hmore.held entry hmem with hroot | ⟨owner, label, v, hv, hplace⟩
      · exact Or.inl hroot
      · exact Or.inr ⟨owner, label, v, List.mem_append_right _ hv, hplace⟩
  typed := by rw [List.filterMap_append, List.filterMap_append, h.typed, hmore.typed]

theorem flatMap {α : Type} {f : α → List Entry} (as : List α)
    (h : ∀ a ∈ as, IsOutline root (f a)) : IsOutline root (as.flatMap f) := by
  induction as with
  | nil => exact nil
  | cons a as ih =>
    exact (h a List.mem_cons_self).append (ih fun b hb => h b (List.mem_cons_of_mem a hb))

/-- What an element has inside is inside the root with it. -/
theorem element (howns : Owns root.kind label v.kind)
    (htyped : ((Entry.element root label v :: entries).filterMap Entry.typeSource?) =
      (Entry.element root label v :: entries).filterMap Entry.typed?)
    (howned : ∀ owner label v, .element owner label v ∈ entries → Owns owner.kind label v.kind)
    (hheld : ∀ entry ∈ entries, entry.holder = v.place ∨
      ∃ owner label v, .element owner label v ∈ entries ∧ v.place = entry.holder) :
    IsOutline root (.element root label v :: entries) where
  owns owner label' v' hmem := by
    rcases List.mem_cons.1 hmem with heq | hmem
    · cases heq
      exact howns
    · exact howned owner label' v' hmem
  held entry hmem := by
    rcases List.mem_cons.1 hmem with rfl | hmem
    · exact Or.inl rfl
    -- what is directly inside the element is inside one that has an entry, the first
    · rcases hheld entry hmem with hroot | ⟨owner, label', v', hv, hplace⟩
      · exact Or.inr ⟨root, label, v, List.mem_cons_self, hroot.symm⟩
      · exact Or.inr ⟨owner, label', v', List.mem_cons_of_mem _ hv, hplace⟩
  typed := htyped

/-- An element without a type, before what it has inside. -/
theorem untypedElement (howns : Owns root.kind label v.kind) (hkind : v.kind.hasType = false)
    (h : IsOutline v.place entries) : IsOutline root (.element root label v :: entries) := by
  refine element howns ?_ h.owns h.held
  simp only [List.filterMap_cons, Entry.typeSource?, Entry.typed?, hkind, Bool.false_eq_true,
    if_false]
  exact h.typed

/-- An element and its type, before what it has inside. -/
theorem typedElement {name rendered : String} (howns : Owns root.kind label v.kind)
    (hkind : v.kind.hasType = true) (h : IsOutline v.place entries) :
    IsOutline root
      (.element root label v :: .mention v.place name (.typeOf rendered) :: entries) := by
  refine element howns ?_ ?_ ?_
  · simp only [List.filterMap_cons, Entry.typeSource?, Entry.typed?, hkind, if_true]
    rw [h.typed]
  · intro owner label' v' hmem
    rcases List.mem_cons.1 hmem with heq | hmem
    · cases heq
    · exact h.owns owner label' v' hmem
  · intro entry hmem
    rcases List.mem_cons.1 hmem with rfl | hmem
    · exact Or.inl rfl
    · rcases h.held entry hmem with hroot | ⟨owner, label', v', hv, hplace⟩
      · exact Or.inl hroot
      · exact Or.inr ⟨owner, label', v', List.mem_cons_of_mem _ hv, hplace⟩

/-- A mention of something other than a type. -/
theorem mention {name : String} {role : MentionRole} (hrole : ∀ rendered, role ≠ .typeOf rendered)
    (h : IsOutline root entries) : IsOutline root (.mention root name role :: entries) where
  owns owner label v hmem := by
    rcases List.mem_cons.1 hmem with heq | hmem
    · cases heq
    · exact h.owns owner label v hmem
  held entry hmem := by
    rcases List.mem_cons.1 hmem with rfl | hmem
    · exact Or.inl rfl
    · rcases h.held entry hmem with hroot | ⟨owner, label, v, hv, hplace⟩
      · exact Or.inl hroot
      · exact Or.inr ⟨owner, label, v, List.mem_cons_of_mem _ hv, hplace⟩
  typed := by
    cases role with
    | typeOf rendered => exact absurd rfl (hrole rendered)
    | _ => simpa only [List.filterMap_cons, Entry.typeSource?, Entry.typed?] using h.typed

theorem mentions {role : MentionRole} (hrole : ∀ rendered, role ≠ .typeOf rendered)
    (names : List String) :
    IsOutline root (names.map fun name => .mention root name role) := by
  induction names with
  | nil => exact nil
  | cons name names ih => exact mention hrole ih

/-! ## The outline of a definition -/

theorem applicationEntries {owner : Place} (howner : owner.kind ≠ .appliedDirective)
    (before : List String) (directives : List AppliedDirective) :
    IsOutline owner (applicationEntries owner before directives) := by
  induction directives generalizing before with
  | nil => exact nil
  | cons d directives ih =>
    -- the number of a repeated directive shows in its path, and in nothing else
    let vertex := d.vertex owner (before.count d.name)
    have hfirst : IsOutline owner [.element owner Label.appliedDirective vertex,
        .mention vertex.place d.name .directive] :=
      untypedElement (.application howner) rfl (mention (fun _ => MentionRole.noConfusion) nil)
    exact hfirst.append (ih (d.name :: before))

theorem inputValue {owner : Place} {kind : ElementKind} (howns : Owns owner.kind label kind)
    (hkind : kind.hasType = true) (value : InputValue) :
    IsOutline owner (value.entries owner kind label) := by
  refine typedElement howns hkind (applicationEntries ?_ [] value.directives)
  rintro rfl
  cases hkind

theorem field {owner : Place} (howns : Owns owner.kind Label.field .field) (f : Field) :
    IsOutline owner (f.entries owner) := by
  have hfield : (f.vertex owner).place.kind ≠ .appliedDirective := ElementKind.noConfusion
  refine typedElement howns rfl (append ?_ (applicationEntries hfield [] f.directives))
  exact flatMap _ fun value _ => inputValue .fieldArgument rfl value

theorem enumValue {owner : Place} (howns : Owns owner.kind Label.enumValue .enumValue)
    (value : EnumValue) : IsOutline owner (value.entries owner) := by
  have hvalue : (value.vertex owner).place.kind ≠ .appliedDirective := ElementKind.noConfusion
  exact untypedElement howns rfl (applicationEntries hvalue [] value.directives)

theorem body {owner : Place} {body : TypeBody} (howner : owner.kind = body.kind) :
    IsOutline owner (body.entries owner) := by
  cases body with
  | object interfaces fields =>
    refine append (mentions (fun _ => MentionRole.noConfusion) interfaces) (flatMap _ fun f _ => ?_)
    exact field (by rw [howner]; exact .objectField) f
  | interface interfaces fields =>
    refine append (mentions (fun _ => MentionRole.noConfusion) interfaces) (flatMap _ fun f _ => ?_)
    exact field (by rw [howner]; exact .interfaceField) f
  | union members => exact mentions (fun _ => MentionRole.noConfusion) members
  | inputObject fields =>
    exact flatMap _ fun value _ => inputValue (by rw [howner]; exact .inputField) rfl value
  | enum values => exact flatMap _ fun value _ => enumValue (by rw [howner]; exact .enumValue) value
  | scalar => exact nil

theorem typeDefinition (d : TypeDefinition) : IsOutline d.place d.entries := by
  refine append (applicationEntries ?_ [] d.directives) (body rfl)
  cases hbody : d.body <;> simp [TypeDefinition.place, TypeBody.kind, hbody]

theorem directiveDefinition (d : DirectiveDefinition) :
    IsOutline (directivePlace d.name) d.entries :=
  flatMap _ fun value _ => inputValue .directiveArgument rfl value

end IsOutline

/-! ## The outline of a type system -/

namespace TypeSystem

variable {ts : TypeSystem}

theorem mem_entries_iff {entry : Entry} : entry ∈ ts.entries ↔
    (∃ d ∈ ts.types.entries, entry ∈ d.entries) ∨
      ∃ d ∈ ts.directives.entries, entry ∈ d.entries := by
  simp only [entries, List.mem_append, List.mem_flatMap]

theorem owns_of_mem_entries {owner : Place} {label : String} {v : Vertex}
    (h : .element owner label v ∈ ts.entries) : Owns owner.kind label v.kind := by
  rcases mem_entries_iff.1 h with ⟨d, -, h⟩ | ⟨d, -, h⟩
  · exact (IsOutline.typeDefinition d).owns owner label v h
  · exact (IsOutline.directiveDefinition d).owns owner label v h

/-- Every entry is inside a definition or inside an element that has an entry. -/
theorem exists_holder {entry : Entry} (h : entry ∈ ts.entries) :
    (∃ v ∈ ts.definitionVertices, v.place = entry.holder) ∨
      ∃ owner label v, .element owner label v ∈ ts.entries ∧ v.place = entry.holder := by
  rcases mem_entries_iff.1 h with ⟨d, hd, h⟩ | ⟨d, hd, h⟩
  · rcases (IsOutline.typeDefinition d).held entry h with hroot | ⟨owner, label, v, hv, hplace⟩
    · refine Or.inl ⟨d.vertex, List.mem_append_left _ (List.mem_map_of_mem hd), ?_⟩
      exact hroot.symm
    · exact Or.inr ⟨owner, label, v, mem_entries_iff.2 (Or.inl ⟨d, hd, hv⟩), hplace⟩
  · rcases (IsOutline.directiveDefinition d).held entry h with hroot | ⟨owner, label, v, hv, hplace⟩
    · refine Or.inl ⟨d.vertex, List.mem_append_right _ (List.mem_map_of_mem hd), ?_⟩
      exact hroot.symm
    · exact Or.inr ⟨owner, label, v, mem_entries_iff.2 (Or.inr ⟨d, hd, hv⟩), hplace⟩

/-- The elements that mention a type are, in their order, those of a kind that has one. -/
theorem filterMap_typeSource? (ts : TypeSystem) :
    ts.entries.filterMap Entry.typeSource? = ts.entries.filterMap Entry.typed? := by
  simp only [entries, List.filterMap_append, List.filterMap_flatMap,
    (IsOutline.typeDefinition _).typed, (IsOutline.directiveDefinition _).typed]

end TypeSystem

end SchemaDelta
