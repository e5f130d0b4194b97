import SchemaDelta.Change.Basic
import SchemaDelta.Proofs.Graph.Built

/-!
What events can be about. Every vertex in the graph of a type system is a definition that the type
system gives, a built-in scalar, or a part of another element, and an event can name it.
-/

namespace SchemaDelta

/-! ## Built-in scalars -/

namespace Properties

theorem find?_insertEntry {key value other : String} {entries : List (String × String)}
    (h : entries.Pairwise fun a b => a.1 < b.1) :
    ((insertEntry key value entries).find? fun entry => entry.1 == other).map (·.2) =
      if key = other then some value
      else (entries.find? fun entry => entry.1 == other).map (·.2) := by
  induction entries with
  | nil => by_cases hkey : key = other <;> simp [insertEntry, hkey]
  | cons first rest ih =>
    obtain ⟨hfirst, hrest⟩ := List.pairwise_cons.1 h
    rw [insertEntry]
    -- in both cases the new entry stands before the first one, in its place, or after it
    by_cases hkey : key = other
    · subst hkey
      split
      · simp
      · split
        · simp
        · next hne => simp [Ne.symm hne, ih hrest]
    · split
      · simp [hkey]
      · split
        · next heq =>
          have hne : first.1 ≠ other := fun h => hkey (heq.trans h)
          simp [hkey, hne]
        · have ih' := ih hrest
          rw [if_neg hkey] at ih'
          cases hother : first.1 == other <;> simp [hother, ih']

theorem get?_insert (ps : Properties) (key value other : String) :
    (ps.insert key value).get? other = if key = other then some value else ps.get? other :=
  find?_insertEntry ps.ascending

theorem get?_empty (key : String) : empty.get? key = none :=
  rfl

theorem get?_insert? (ps : Properties) {key other : String} (value? : Option String)
    (h : key ≠ other) : (ps.insert? key value?).get? other = ps.get? other := by
  cases value? with
  | none => rfl
  | some value => rw [insert?, get?_insert, if_neg h]

end Properties

theorem isBuiltIn_builtInScalarVertex (name : String) :
    (builtInScalarVertex name).isBuiltIn = true := by
  simp [Vertex.isBuiltIn, builtInScalarVertex, Vertex.property?, Properties.get?_insert]

theorem TypeDefinition.isBuiltIn_vertex (d : TypeDefinition) :
    d.vertex.isBuiltIn = true ↔ d.body.kind = .scalar ∧ isBuiltIn d.name = true := by
  have hdescription : (descriptionProperties d.description).get? builtInScalarKey = none := by
    rw [descriptionProperties, Properties.get?_insert? _ _ (by decide), Properties.get?_empty]
  by_cases hbuiltIn : d.body.kind = .scalar ∧ isBuiltIn d.name = true
  · simp [Vertex.isBuiltIn, Vertex.property?, vertex, hbuiltIn, Properties.insert?,
      Properties.get?_insert]
  · simp [Vertex.isBuiltIn, Vertex.property?, vertex, hbuiltIn, Properties.insert?, hdescription]

/-! ## Definitions and parts -/

@[simp]
theorem TypeDefinition.kind_vertex (d : TypeDefinition) : d.vertex.kind = d.body.kind := rfl

@[simp]
theorem TypeDefinition.name_vertex (d : TypeDefinition) : d.vertex.name = d.name := rfl

@[simp]
theorem DirectiveDefinition.kind_vertex (d : DirectiveDefinition) : d.vertex.kind = .directive := rfl

@[simp]
theorem DirectiveDefinition.name_vertex (d : DirectiveDefinition) : d.vertex.name = d.name := rfl

theorem ElementKind.isDefinition_iff {kind : ElementKind} :
    kind.isDefinition = true ↔ kind.isType = true ∨ kind = .directive := by
  cases kind <;> decide

namespace TypeSystem

variable {ts : TypeSystem} {g : Graph} {id : Nat} {v w : Vertex}

/-- An element of a kind that is not that of a definition is inside another. -/
theorem Has.exists_element (hv : ts.Has v) (hkind : v.kind.isDefinition = false) :
    ∃ owner label, .element owner label v ∈ ts.entries := by
  cases hv with
  | type hd =>
    rw [TypeDefinition.kind_vertex, ElementKind.isDefinition_iff.2 (Or.inl (TypeBody.isType_kind _))]
      at hkind
    cases hkind
  | directive hd => cases hkind
  | element hmem => exact ⟨_, _, hmem⟩
  | builtIn hrole hmem hunknown => cases hkind

/-- A definition that is not a built-in scalar is one that the type system gives. -/
theorem Has.exists_definition (hv : ts.Has v) (hkind : v.kind.isDefinition = true)
    (hbuiltIn : v.isBuiltIn = false) :
    (∃ d ∈ ts.types.entries, v = d.vertex) ∨ ∃ d ∈ ts.directives.entries, v = d.vertex := by
  cases hv with
  | type hd => exact Or.inl ⟨_, hd, rfl⟩
  | directive hd => exact Or.inr ⟨_, hd, rfl⟩
  | element hmem =>
    rw [(owns_of_mem_entries hmem).isDefinition] at hkind
    cases hkind
  | builtIn hrole hmem hunknown =>
    rw [isBuiltIn_builtInScalarVertex] at hbuiltIn
    cases hbuiltIn

/-- A definition is known by its kind and its name. -/
theorem Has.path_eq (hv : ts.Has v) (hkind : v.kind.isDefinition = true) :
    v.path = if v.kind = .directive then "@" ++ v.name else v.name := by
  cases hv with
  | type hd =>
    rename_i d
    have hne : d.body.kind ≠ .directive := by
      intro heq
      have htype := TypeBody.isType_kind d.body
      rw [heq] at htype
      cases htype
    rw [TypeDefinition.kind_vertex, if_neg hne]
    rfl
  | directive hd => rfl
  | element hmem =>
    rw [(owns_of_mem_entries hmem).isDefinition] at hkind
    cases hkind
  | builtIn hrole hmem hunknown => rfl

theorem Has.place_eq (hv : ts.Has v) {ts' : TypeSystem} (hw : ts'.Has w)
    (hdefinition : v.kind.isDefinition = true) (hkind : v.kind = w.kind) (hname : v.name = w.name) :
    v.place = w.place := by
  unfold Vertex.place
  rw [hv.path_eq hdefinition, hw.path_eq (hkind ▸ hdefinition), hkind, hname]

section Built

variable (h : Graph.ofTypeSystem ts = .ok g)

include h

theorem Has.isBuiltIn_iff (hv : ts.Has v) :
    v.isBuiltIn = true ↔ v.kind = .scalar ∧ isBuiltIn v.name = true := by
  cases hv with
  | type hd => exact TypeDefinition.isBuiltIn_vertex _
  | directive hd => simp [Vertex.isBuiltIn, DirectiveDefinition.vertex]
  | element hmem =>
    -- a scalar is a definition and inside nothing
    have hpart := (owns_of_mem_entries hmem).isDefinition
    have hkind : v.kind ≠ .scalar := by
      intro heq
      rw [heq] at hpart
      cases hpart
    simp [Vertex.isBuiltIn, hkind]
  | builtIn hrole hmem hunknown =>
    rename_i source name role
    exact iff_of_true (isBuiltIn_builtInScalarVertex name)
      ⟨rfl, isBuiltIn_of_mention h hmem hrole hunknown⟩

/-- Nothing owns a definition. -/
theorem owner?_eq_none (hv : g.vertex? id = some v) (hkind : v.kind.isDefinition = true) :
    g.owner? id = none := by
  cases howner : g.owner? id with
  | none => rfl
  | some owner =>
    obtain ⟨v', w, label, hv', -, hmem⟩ := exists_element_of_owner? h howner
    cases hv.symm.trans hv'
    rw [(owns_of_mem_entries hmem).isDefinition] at hkind
    cases hkind

/-- What is inside something has an owner that can own it. -/
theorem exists_owner_of_part (hv : g.vertex? id = some v) (hkind : v.kind.isDefinition = false) :
    ∃ owner w label, g.owner? id = some owner ∧ g.vertex? owner = some w ∧
      Owns w.kind label v.kind := by
  obtain ⟨place, label, hmem⟩ := (has_of_vertex? h hv).exists_element hkind
  obtain ⟨owner, w, howner, hw, rfl⟩ := exists_owner? h hmem hv
  exact ⟨owner, w, label, howner, hw, owns_of_mem_entries hmem⟩

end Built

end TypeSystem

/-! ## Subjects -/

/-- The elements that are definitions of a kind. -/
def DefinitionKind.element : DefinitionKind → ElementKind
  | interface => .interface
  | union => .union
  | inputObject => .inputObject
  | enum => .enum
  | scalar => .scalar
  | directive => .directive

/-- The elements that are parts of a kind. -/
def PartKind.element : PartKind → ElementKind
  | field => .field
  | inputField => .inputField
  | argument => .argument
  | enumValue => .enumValue
  | appliedDirective => .appliedDirective

/-- How events tell the owner of a part. -/
def PartKind.ownerText : PartKind → Vertex → String
  | field | inputField | enumValue => Vertex.name
  | argument | appliedDirective => Vertex.path

/-- The elements that a subject can be. -/
def Subject.element : Subject → ElementKind
  | object _ => .object
  | definition kind _ => kind.element
  | part kind _ _ => kind.element

theorem Subject.eq_of_element {subject other : Subject}
    (hdefinition : subject.element.isDefinition = true) (helement : subject.element = other.element)
    (hname : subject.name = other.name) : subject = other := by
  cases subject with
  | object name =>
    cases other with
    | object name' => exact congrArg Subject.object hname
    | definition kind name' => cases kind <;> cases helement
    | part kind name' owner => cases kind <;> cases helement
  | definition kind name =>
    cases other with
    | object name' => cases kind <;> cases helement
    | definition kind' name' =>
      obtain rfl : kind = kind' := by cases kind <;> cases kind' <;> first | rfl | cases helement
      exact congrArg (Subject.definition kind) hname
    | part kind' name' owner => cases kind <;> cases kind' <;> cases helement
  | part kind name owner => cases kind <;> cases hdefinition

/-- Whether a subject is a built-in scalar. -/
def Subject.isBuiltIn : Subject → Bool
  | definition .scalar name => SchemaDelta.isBuiltIn name
  | _ => false

/-- Whether a subject tells a vertex of a graph: its kind, its name, and for a part its owner. -/
inductive Graph.IsSubject (g : Graph) (id : Nat) : Subject → Prop where
  | object {v : Vertex} (hv : g.vertex? id = some v) (hkind : v.kind = .object) :
    IsSubject g id (.object v.name)
  | definition {v : Vertex} {kind : DefinitionKind} (hv : g.vertex? id = some v)
    (hkind : v.kind = kind.element) : IsSubject g id (.definition kind v.name)
  | part {v w : Vertex} {kind : PartKind} {owner : Nat} (hv : g.vertex? id = some v)
    (hkind : v.kind = kind.element) (howner : g.owner? id = some owner)
    (hw : g.vertex? owner = some w) : IsSubject g id (.part kind v.name (kind.ownerText w))

namespace Graph.IsSubject

variable {g : Graph} {id : Nat} {subject : Subject} {v : Vertex}

theorem exists_vertex? (h : g.IsSubject id subject) :
    ∃ v, g.vertex? id = some v ∧ v.kind = subject.element ∧ v.name = subject.name := by
  cases h with
  | object hv hkind => exact ⟨_, hv, hkind, rfl⟩
  | definition hv hkind => exact ⟨_, hv, hkind, rfl⟩
  | part hv hkind howner hw => exact ⟨_, hv, hkind, rfl⟩

theorem kind_eq (h : g.IsSubject id subject) (hv : g.vertex? id = some v) :
    v.kind = subject.element := by
  obtain ⟨v', hv', hkind, -⟩ := h.exists_vertex?
  rw [hv] at hv'
  rw [Option.some.inj hv', hkind]

theorem name_eq (h : g.IsSubject id subject) (hv : g.vertex? id = some v) :
    v.name = subject.name := by
  obtain ⟨v', hv', -, hname⟩ := h.exists_vertex?
  rw [hv] at hv'
  rw [Option.some.inj hv', hname]

/-- A definition is told in one way. -/
theorem eq_of_definition {other : Subject} (h : g.IsSubject id subject) (h' : g.IsSubject id other)
    (hdefinition : subject.element.isDefinition = true) : subject = other := by
  obtain ⟨v, hv, hkind, hname⟩ := h.exists_vertex?
  exact Subject.eq_of_element hdefinition (hkind.symm.trans (h'.kind_eq hv))
    (hname.symm.trans (h'.name_eq hv))

/-- A vertex is told in one way. -/
theorem eq {other : Subject} (h : g.IsSubject id subject) (h' : g.IsSubject id other) : subject = other := by
  cases hdefinition : subject.element.isDefinition with
  | true => exact h.eq_of_definition h' hdefinition
  | false =>
    obtain ⟨v, hv, hkind, hname⟩ := h.exists_vertex?
    have helement : subject.element = other.element := hkind.symm.trans (h'.kind_eq hv)
    cases h with
    | object => cases hdefinition
    | @definition _ kind => cases kind <;> cases hdefinition
    | @part v w kind owner hv hkind howner hw =>
      cases h' with
      | object => cases kind <;> cases helement
      | @definition _ kind' => cases kind <;> cases kind' <;> cases helement
      | @part v' w' kind' owner' hv' hkind' howner' hw' =>
        obtain rfl : kind = kind' := by
          cases kind <;> cases kind' <;> first | rfl | cases helement
        cases hv.symm.trans hv'
        cases howner.symm.trans howner'
        cases hw.symm.trans hw'
        rfl

theorem of_definition (hv : g.vertex? id = some v) (hkind : v.kind = subject.element)
    (hname : v.name = subject.name) (hdefinition : subject.element.isDefinition = true) :
    g.IsSubject id subject := by
  cases subject with
  | object name =>
    cases hname
    exact .object hv hkind
  | definition kind name =>
    cases hname
    exact .definition hv hkind
  | part kind name owner => cases kind <;> cases hdefinition

/-- A definition is told of one vertex. -/
theorem id_eq_of_definition {ts : TypeSystem} {id' : Nat} (h : g.IsSubject id subject)
    (h' : g.IsSubject id' subject) (hbuilt : Graph.ofTypeSystem ts = .ok g)
    (hdefinition : subject.element.isDefinition = true) : id = id' := by
  obtain ⟨v, hv, hkind, hname⟩ := h.exists_vertex?
  obtain ⟨w, hw, hkind', hname'⟩ := h'.exists_vertex?
  refine Graph.eq_of_place hv hw ((TypeSystem.has_of_vertex? hbuilt hv).place_eq
    (TypeSystem.has_of_vertex? hbuilt hw) ?_ (hkind.trans hkind'.symm) (hname.trans hname'.symm))
  rw [hkind]
  exact hdefinition

theorem isBuiltIn_eq {ts : TypeSystem} (h : g.IsSubject id subject)
    (hbuilt : Graph.ofTypeSystem ts = .ok g) (hv : g.vertex? id = some v) :
    subject.isBuiltIn = v.isBuiltIn := by
  have hname := h.name_eq hv
  have hkind := h.kind_eq hv
  rw [Bool.eq_iff_iff, (TypeSystem.has_of_vertex? hbuilt hv).isBuiltIn_iff hbuilt, hname, hkind]
  cases h with
  | object => simp [Subject.isBuiltIn, Subject.element]
  | definition => rename_i kind _ _; cases kind <;>
      simp [Subject.isBuiltIn, Subject.element, DefinitionKind.element, Subject.name]
  | part => rename_i kind _ _ _ _ _; cases kind <;>
      simp [Subject.isBuiltIn, Subject.element, PartKind.element]

end Graph.IsSubject

end SchemaDelta
