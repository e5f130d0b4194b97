import SchemaDelta.Proofs.Graph.Subjects

/-!
The types of fields, input fields and arguments in the graph of a type system: each of them has just
one edge that leads to its type, with the type as it is written.
-/

namespace SchemaDelta

/-! ## Elements that have a type -/

/-- The fields of an object or interface. -/
def TypeBody.fields : TypeBody → List Field
  | object _ fields | interface _ fields => fields
  | _ => []

/-- The fields of an input object. -/
def TypeBody.inputFields : TypeBody → List InputValue
  | inputObject fields => fields
  | _ => []

/-- Which elements of a type system have which type. -/
inductive TypeSystem.IsTyped (ts : TypeSystem) : Place → TypeRef → Prop where
  | field {d : TypeDefinition} {f : Field} (hd : d ∈ ts.types.entries) (hf : f ∈ d.body.fields) :
    IsTyped ts ⟨.field, innerPath d.place f.name⟩ f.type
  | fieldArgument {d : TypeDefinition} {f : Field} {a : InputValue} (hd : d ∈ ts.types.entries)
    (hf : f ∈ d.body.fields) (ha : a ∈ f.arguments) :
    IsTyped ts ⟨.argument, innerPath ⟨.field, innerPath d.place f.name⟩ a.name⟩ a.type
  | inputField {d : TypeDefinition} {a : InputValue} (hd : d ∈ ts.types.entries)
    (ha : a ∈ d.body.inputFields) : IsTyped ts ⟨.inputField, innerPath d.place a.name⟩ a.type
  | directiveArgument {d : DirectiveDefinition} {a : InputValue} (hd : d ∈ ts.directives.entries)
    (ha : a ∈ d.arguments) :
    IsTyped ts ⟨.argument, innerPath (directivePlace d.name) a.name⟩ a.type

/-! ## Their entries -/

theorem InputValue.mention_mem_entries (owner : Place) (kind : ElementKind) (label : String)
    (a : InputValue) : .mention ⟨kind, innerPath owner a.name⟩ a.type.name
      (.typeOf a.type.rendered) ∈ a.entries owner kind label :=
  List.mem_cons_of_mem _ List.mem_cons_self

theorem Field.mention_mem_entries (owner : Place) (f : Field) :
    .mention ⟨.field, innerPath owner f.name⟩ f.type.name (.typeOf f.type.rendered) ∈
      f.entries owner :=
  List.mem_cons_of_mem _ List.mem_cons_self

theorem Field.mem_entries_of_argument {owner : Place} {f : Field} {a : InputValue} {entry : Entry}
    (ha : a ∈ f.arguments)
    (h : entry ∈ a.entries ⟨.field, innerPath owner f.name⟩ .argument Label.argument) :
    entry ∈ f.entries owner := by
  refine List.mem_cons_of_mem _ (List.mem_cons_of_mem _ (List.mem_append_left _ ?_))
  exact List.mem_flatMap.2 ⟨a, ha, h⟩

theorem TypeDefinition.mem_entries_of_field {d : TypeDefinition} {f : Field} {entry : Entry}
    (hf : f ∈ d.body.fields) (h : entry ∈ f.entries d.place) : entry ∈ d.entries := by
  refine List.mem_append_right _ ?_
  generalize d.place = place at h
  cases hbody : d.body <;> rw [hbody] at hf
  case object => exact List.mem_append_right _ (List.mem_flatMap.2 ⟨f, hf, h⟩)
  case interface => exact List.mem_append_right _ (List.mem_flatMap.2 ⟨f, hf, h⟩)
  all_goals cases hf

theorem TypeDefinition.mem_entries_of_inputField {d : TypeDefinition} {a : InputValue}
    {entry : Entry} (ha : a ∈ d.body.inputFields)
    (h : entry ∈ a.entries d.place .inputField Label.inputField) : entry ∈ d.entries := by
  refine List.mem_append_right _ ?_
  generalize d.place = place at h
  cases hbody : d.body <;> rw [hbody] at ha
  case inputObject => exact List.mem_flatMap.2 ⟨a, ha, h⟩
  all_goals cases ha

namespace TypeSystem

variable {ts : TypeSystem} {g : Graph} {place : Place} {type : TypeRef}

theorem IsTyped.mention_mem_entries (h : ts.IsTyped place type) :
    .mention place type.name (.typeOf type.rendered) ∈ ts.entries := by
  rw [mem_entries_iff]
  cases h with
  | field hd hf =>
    exact Or.inl ⟨_, hd, TypeDefinition.mem_entries_of_field hf (Field.mention_mem_entries _ _)⟩
  | fieldArgument hd hf ha =>
    exact Or.inl ⟨_, hd, TypeDefinition.mem_entries_of_field hf
      (Field.mem_entries_of_argument ha (InputValue.mention_mem_entries _ _ _ _))⟩
  | inputField hd ha =>
    exact Or.inl ⟨_, hd, TypeDefinition.mem_entries_of_inputField ha
      (InputValue.mention_mem_entries _ _ _ _)⟩
  | directiveArgument hd ha =>
    exact Or.inr ⟨_, hd, List.mem_flatMap.2 ⟨_, ha, InputValue.mention_mem_entries _ _ _ _⟩⟩

/-! ## One type for each element -/

theorem eq_of_nodup_filterMap {α β : Type} {f : α → Option β} {as : List α} {a a' : α} {b : β}
    (h : (as.filterMap f).Nodup) (ha : a ∈ as) (ha' : a' ∈ as) (hb : f a = some b)
    (hb' : f a' = some b) : a = a' := by
  induction as with
  | nil => cases ha
  | cons first rest ih =>
    have hrest : (rest.filterMap f).Nodup :=
      h.sublist ((List.sublist_cons_self first rest).filterMap f)
    have hfirst {other : α} (hother : other ∈ rest) (hf : f first = some b) :
        f other ≠ some b := by
      intro heq
      rw [List.filterMap_cons_some hf] at h
      exact (List.nodup_cons.1 h).1 (List.mem_filterMap.2 ⟨other, hother, heq⟩)
    rcases List.mem_cons.1 ha with rfl | hrestA
    · rcases List.mem_cons.1 ha' with rfl | hrestA'
      · rfl
      · exact absurd hb' (hfirst hrestA' hb)
    · rcases List.mem_cons.1 ha' with rfl | hrestA'
      · exact absurd hb (hfirst hrestA hb')
      · exact ih hrest hrestA hrestA'

section Built

variable (h : Graph.ofTypeSystem ts = .ok g)

include h

theorem nodup_element_places : ((ts.entries.filterMap Entry.vertex?).map Vertex.place).Nodup := by
  refine nodup_places_of_vertices ?_
  rw [← vertices_eq h]
  exact g.places_distinct

/-- An element mentions one type at most. -/
theorem eq_of_mentions {name name' rendered rendered' : String}
    (hmem : .mention place name (.typeOf rendered) ∈ ts.entries)
    (hmem' : .mention place name' (.typeOf rendered') ∈ ts.entries) : rendered = rendered' := by
  -- the elements that mention types are those that have one, which are at different places
  have hsources : (ts.entries.filterMap Entry.typeSource?).Nodup := by
    have htyped : ts.entries.filterMap Entry.typed? = (ts.entries.filterMap Entry.vertex?).filterMap
        fun v => if v.kind.hasType then some v.place else none := by
      rw [List.filterMap_filterMap]
      exact List.filterMap_congr fun entry _ => by cases entry <;> rfl
    have hplaces := nodup_element_places h
    rw [filterMap_typeSource?, htyped]
    unfold List.Nodup at hplaces ⊢
    rw [List.pairwise_map] at hplaces
    refine hplaces.filterMap _ fun v w hne place hv place' hw => ?_
    split at hv
    · split at hw
      · cases hv
        cases hw
        exact hne
      · cases hw
    · cases hv
  cases eq_of_nodup_filterMap hsources hmem hmem' rfl rfl
  rfl

/-! ## Edges to types -/

theorem IsTyped.exists_vertex? (htyped : ts.IsTyped place type) :
    ∃ id v, g.vertex? id = some v ∧ v.place = place := by
  have hhas : ∃ v, ts.Has v ∧ v.place = place := by
    rcases exists_holder htyped.mention_mem_entries with ⟨v, hv, hplace⟩ | ⟨_, _, v, hv, hplace⟩
    · exact ⟨v, has_of_mem_definitionVertices hv, hplace⟩
    · exact ⟨v, .element hv, hplace⟩
  obtain ⟨v, hv, hplace⟩ := hhas
  obtain ⟨id, hid⟩ := TypeSystem.exists_vertex? h hv
  exact ⟨id, v, hid, hplace⟩

/-- An element that has a type has an edge to it. -/
theorem IsTyped.exists_edge (htyped : ts.IsTyped place type) {id : Nat} {v : Vertex}
    (hv : g.vertex? id = some v) (hplace : v.place = place) : ∃ edge e w,
      g.edge? edge = some e ∧ e.one = id ∧ e.label = Label.typeOf type.rendered ∧
        g.vertex? e.two = some w ∧ w.kind.isType = true ∧ w.name = type.name := by
  have hmem := htyped.mention_mem_entries
  obtain ⟨w, hw, htype, hname, htarget⟩ :=
    exists_typePlace? h hmem (fun heq => MentionRole.noConfusion heq)
  have hlink : ts.link? (.mention place type.name (.typeOf type.rendered)) =
      some ⟨place, w.place, Label.typeOf type.rendered⟩ := by
    rw [link?_mention (fun heq => MentionRole.noConfusion heq), htarget]
    rfl
  obtain ⟨e, he⟩ := exists_edge? h hmem hlink
  obtain ⟨hone, htwo, hlabel⟩ := Link.edge?_eq_some_iff.1 he
  obtain ⟨edge, hedge⟩ := List.mem_iff_getElem?.1
    ((mem_edges_iff h).2 ⟨_, hmem, _, hlink, he⟩)
  -- the ends of the edge are what is at the places of the relation
  obtain ⟨v', hv', hplace'⟩ := Graph.find?_eq_some_iff.1 hone
  obtain ⟨w', hw', hwplace⟩ := Graph.find?_eq_some_iff.1 htwo
  obtain rfl := Has.eq_of_place h (has_of_vertex? h hw') hw hwplace
  exact ⟨edge, e, w', hedge, Graph.eq_of_place hv' hv (hplace'.trans hplace.symm), hlabel, hw',
    htype, hname⟩

/-- Whatever edge to a type leads from an element, it is that to its type. -/
theorem IsTyped.eq_of_edge (htyped : ts.IsTyped place type) {id : Nat} {v : Vertex} {e : Edge}
    {rendered : String} (hv : g.vertex? id = some v) (hplace : v.place = place) (he : e ∈ g.edges)
    (hone : e.one = id) (hlabel : e.label = Label.typeOf rendered) : type.rendered = rendered := by
  obtain ⟨entry, hentry, link, hlink, hedge⟩ := (mem_edges_iff h).1 he
  obtain ⟨hsource, -, hlinkLabel⟩ := Link.edge?_eq_some_iff.1 hedge
  obtain ⟨v', hv', hplace'⟩ := Graph.find?_eq_some_iff.1 hsource
  rw [hone, hv] at hv'
  cases hv'
  rw [hplace] at hplace'
  rw [hlabel] at hlinkLabel
  cases entry with
  | element owner label w =>
    -- the labels of owners are not those of types
    cases hlink
    have howns := (owns_of_mem_entries hentry).isOwnership
    have hmention := Label.isOwnership_mention (.typeOf rendered) ""
    rw [show label = (MentionRole.typeOf rendered).label "" from hlinkLabel.symm, hmention] at howns
    cases howns
  | mention source name role =>
    obtain ⟨rfl, hrole⟩ := eq_of_link?_mention hlink
    rw [hrole] at hlinkLabel
    have hrendered := Label.eq_of_typeOf_eq_label hlinkLabel
    rw [hrendered, ← hplace'] at hentry
    exact eq_of_mentions h htyped.mention_mem_entries hentry

end Built

end TypeSystem

end SchemaDelta
