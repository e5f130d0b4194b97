import SchemaDelta.Proofs.Graph.Built
import SchemaDelta.Proofs.Lists

/-!
Type systems with the same declarations in another order. What is in order for a reason stays: the
directives applied to an element, their arguments, and the locations of a directive.

Such type systems say the same: they have the same entries and the same elements up to order, and
nothing that is looked up by name tells them apart.
-/

namespace SchemaDelta

/-! ## Declarations in another order -/

/-- Whether a list is another one in another order, with related elements in the place of its own.
-/
def Rearranged {α β : Type} (R : α → β → Prop) (as : List α) (bs : List β) : Prop :=
  ∃ cs, as.Perm cs ∧ List.Forall₂ R cs bs

/-- The same field, with its arguments in another order. -/
structure Field.Reordered (f g : Field) : Prop where
  arguments : f.arguments.Perm g.arguments
  rest : { f with arguments := g.arguments } = g

/-- The same contents of a type, in another order. -/
inductive TypeBody.Reordered : TypeBody → TypeBody → Prop where
  | object {interfaces interfaces' : List String} {fields fields' : List Field}
    (hinterfaces : interfaces.Perm interfaces')
    (hfields : Rearranged Field.Reordered fields fields') :
    Reordered (.object interfaces fields) (.object interfaces' fields')
  | interface {interfaces interfaces' : List String} {fields fields' : List Field}
    (hinterfaces : interfaces.Perm interfaces')
    (hfields : Rearranged Field.Reordered fields fields') :
    Reordered (.interface interfaces fields) (.interface interfaces' fields')
  | union {members members' : List String} (h : members.Perm members') :
    Reordered (.union members) (.union members')
  | inputObject {fields fields' : List InputValue} (h : fields.Perm fields') :
    Reordered (.inputObject fields) (.inputObject fields')
  | enum {values values' : List EnumValue} (h : values.Perm values') :
    Reordered (.enum values) (.enum values')
  | scalar : Reordered .scalar .scalar

/-- The same type, with its contents in another order. -/
structure TypeDefinition.Reordered (d e : TypeDefinition) : Prop where
  body : d.body.Reordered e.body
  rest : { d with body := e.body } = e

/-- The same directive, with its arguments in another order. -/
structure DirectiveDefinition.Reordered (d e : DirectiveDefinition) : Prop where
  arguments : d.arguments.Perm e.arguments
  rest : { d with arguments := e.arguments } = e

/-- The same declarations, in another order. -/
structure TypeSystem.Reordered (ts us : TypeSystem) : Prop where
  types : Rearranged TypeDefinition.Reordered ts.types.entries us.types.entries
  directives : Rearranged DirectiveDefinition.Reordered ts.directives.entries us.directives.entries

namespace Rearranged

variable {α β γ : Type} {R : α → β → Prop} {as : List α} {bs : List β}

theorem flatMap_perm {f : α → List γ} {g : β → List γ} (h : Rearranged R as bs)
    (hfg : ∀ a b, R a b → (f a).Perm (g b)) : (as.flatMap f).Perm (bs.flatMap g) := by
  obtain ⟨cs, hperm, hrel⟩ := h
  -- the order is settled, and what is left goes element by element
  refine (hperm.flatMap_right f).trans ?_
  clear hperm
  induction hrel with
  | nil => exact .refl _
  | cons hab _ ih => exact (hfg _ _ hab).append ih

theorem map_perm {f : α → γ} {g : β → γ} (h : Rearranged R as bs)
    (hfg : ∀ a b, R a b → f a = g b) : (as.map f).Perm (bs.map g) := by
  simp only [List.map_eq_flatMap]
  exact h.flatMap_perm fun a b hab => by rw [hfg a b hab]

theorem of_perm {R : α → α → Prop} {as bs : List α} (hR : ∀ a, R a a) (h : as.Perm bs) :
    Rearranged R as bs :=
  ⟨bs, h, List.forall₂_same.2 fun a _ => hR a⟩

theorem exists_related {a : α} (h : Rearranged R as bs) (ha : a ∈ as) : ∃ b ∈ bs, R a b := by
  obtain ⟨cs, hperm, hrel⟩ := h
  exact exists_mem_right_of_forall₂ hrel (hperm.mem_iff.1 ha)

end Rearranged

/-- What related entries have in common is found alike in catalogs of such entries. -/
theorem Catalog.map_find?_eq {α β γ : Type} {nameOf : α → String} {nameOf' : β → String}
    {R : α → β → Prop} {c : Catalog α nameOf} {c' : Catalog β nameOf'} {f : α → γ} {g : β → γ}
    (h : Rearranged R c.entries c'.entries) (hname : ∀ a b, R a b → nameOf a = nameOf' b)
    (hfg : ∀ a b, R a b → f a = g b) (key : String) :
    (c.find? key).map f = (c'.find? key).map g := by
  cases hfind : c.find? key with
  | none =>
    rw [find?_eq_none_iff, names, (h.map_perm hname).mem_iff, ← names, ← find?_eq_none_iff] at hfind
    rw [hfind]
    rfl
  | some a =>
    obtain ⟨hmem, rfl⟩ := find?_eq_some_iff.1 hfind
    obtain ⟨b, hb, hab⟩ := h.exists_related hmem
    rw [find?_eq_some_iff.2 ⟨hb, (hname a b hab).symm⟩, Option.map_some, Option.map_some, hfg a b hab]

/-! ## What definitions say -/

namespace Field.Reordered

variable {f g : Field}

theorem refl (f : Field) : f.Reordered f :=
  ⟨.refl _, rfl⟩

theorem entries_perm (h : f.Reordered g) (owner : Place) :
    (f.entries owner).Perm (g.entries owner) := by
  rw [← h.rest]
  exact (((h.arguments.flatMap_right _).append_right _).cons _).cons _

end Field.Reordered

namespace TypeBody.Reordered

variable {b c : TypeBody}

theorem kind_eq (h : b.Reordered c) : b.kind = c.kind := by
  cases h <;> rfl

theorem entries_perm (h : b.Reordered c) (owner : Place) :
    (b.entries owner).Perm (c.entries owner) := by
  cases h with
  | object hinterfaces hfields | interface hinterfaces hfields =>
    exact (hinterfaces.map _).append (hfields.flatMap_perm fun _ _ h => h.entries_perm owner)
  | union h => exact h.map _
  | inputObject h => exact h.flatMap_right _
  | enum h => exact h.flatMap_right _
  | scalar => exact .refl _

end TypeBody.Reordered

namespace TypeDefinition.Reordered

variable {d e : TypeDefinition}

theorem name_eq (h : d.Reordered e) : d.name = e.name := by
  rw [← h.rest]

theorem place_eq (h : d.Reordered e) : d.place = e.place := by
  rw [place, place, h.body.kind_eq, h.name_eq]

theorem vertex_eq (h : d.Reordered e) : d.vertex = e.vertex := by
  rw [← h.rest, vertex, vertex, h.body.kind_eq]

theorem entries_perm (h : d.Reordered e) : d.entries.Perm e.entries := by
  have hdirectives : d.directives = e.directives := by rw [← h.rest]
  rw [entries, entries, h.place_eq, hdirectives]
  exact (h.body.entries_perm e.place).append_left _

end TypeDefinition.Reordered

namespace DirectiveDefinition.Reordered

variable {d e : DirectiveDefinition}

theorem name_eq (h : d.Reordered e) : d.name = e.name := by
  rw [← h.rest]

theorem vertex_eq (h : d.Reordered e) : d.vertex = e.vertex := by
  rw [← h.rest]
  rfl

theorem entries_perm (h : d.Reordered e) : d.entries.Perm e.entries := by
  rw [entries, entries, h.name_eq]
  exact h.arguments.flatMap_right _

end DirectiveDefinition.Reordered

/-! ## What type systems say -/

namespace TypeSystem

theorem unknownTypes_perm {known known' : List String} {entries entries' : List Entry}
    (hknown : known.Perm known') (h : entries.Perm entries') :
    (unknownTypes known entries).Perm (unknownTypes known' entries') := by
  refine eraseDups_perm ?_
  have hsame : (fun name => !known.contains name) = fun name => !known'.contains name := by
    funext name
    rw [Bool.not_inj_iff, Bool.eq_iff_iff, List.contains_iff_mem, List.contains_iff_mem,
      hknown.mem_iff]
  rw [hsame]
  exact (h.filterMap _).filter _

namespace Reordered

variable {ts us : TypeSystem} (h : ts.Reordered us)

include h

theorem isSome_type? (name : String) : (ts.type? name).isSome = (us.type? name).isSome := by
  have hfound := Catalog.map_find?_eq (f := fun _ => ()) (g := fun _ => ()) h.types
    (fun _ _ h => h.name_eq) (fun _ _ _ => rfl) name
  simpa [type?] using congrArg Option.isSome hfound

theorem map_directive? {γ : Type} (name : String) (a : γ) :
    ((ts.directive? name).map fun _ => a) = (us.directive? name).map fun _ => a :=
  Catalog.map_find?_eq h.directives (fun _ _ h => h.name_eq) (fun _ _ _ => rfl) name

theorem isSome_directive? (name : String) :
    (ts.directive? name).isSome = (us.directive? name).isSome := by
  simpa using congrArg Option.isSome (h.map_directive? name ())

theorem typePlace?_eq (name : String) : ts.typePlace? name = us.typePlace? name := by
  have hplace : (ts.type? name).map TypeDefinition.place = (us.type? name).map TypeDefinition.place :=
    Catalog.map_find?_eq h.types (fun _ _ h => h.name_eq) (fun _ _ h => h.place_eq) name
  unfold typePlace?
  cases hfound : ts.type? name <;> cases hfound' : us.type? name <;> simp_all

theorem fault?_eq (entry : Entry) : ts.fault? entry = us.fault? entry := by
  cases entry with
  | element => rfl
  | mention source name role => cases role <;> simp only [fault?, mentionFault?, h.typePlace?_eq]

theorem link?_eq (entry : Entry) : ts.link? entry = us.link? entry := by
  cases entry with
  | element => rfl
  | mention source name role =>
    cases role with
    | directive => exact h.map_directive? name _
    | _ => simp only [link?, h.typePlace?_eq]

theorem entries_perm : ts.entries.Perm us.entries :=
  (h.types.flatMap_perm fun _ _ h => h.entries_perm).append
    (h.directives.flatMap_perm fun _ _ h => h.entries_perm)

theorem firstFault?_eq_none (hfault : ts.firstFault? = none) : us.firstFault? = none := by
  rw [firstFault?, List.findSome?_eq_none_iff] at hfault ⊢
  intro entry hmem
  rw [← h.fault?_eq]
  exact hfault entry (h.entries_perm.mem_iff.2 hmem)

theorem vertices_perm : ts.vertices.Perm us.vertices := by
  have hdefinitions : ts.definitionVertices.Perm us.definitionVertices :=
    (h.types.map_perm fun _ _ h => h.vertex_eq).append
      (h.directives.map_perm fun _ _ h => h.vertex_eq)
  have hnames : ts.types.names.Perm us.types.names := h.types.map_perm fun _ _ h => h.name_eq
  -- which mention of a built-in scalar comes first is different, but not which are mentioned
  refine hdefinitions.append ((entryVertices_perm _ _).trans ?_)
  refine List.Perm.trans ?_ (entryVertices_perm _ _).symm
  exact (h.entries_perm.filterMap _).append ((unknownTypes_perm hnames h.entries_perm).map _)

theorem links_perm : ts.links.Perm us.links := by
  have hlink : ts.link? = us.link? := funext h.link?_eq
  rw [links, links, hlink]
  exact h.entries_perm.filterMap _

end Reordered

end TypeSystem

end SchemaDelta
