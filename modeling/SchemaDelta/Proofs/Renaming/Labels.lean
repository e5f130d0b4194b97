import SchemaDelta.Proofs.Graph.Mentions
import SchemaDelta.Proofs.Graph.Types
import SchemaDelta.Proofs.Renaming.Graphs

/-!
The labels of edges when an element is renamed. Those of references to a type that is renamed are
the only ones that change. They tell the name of the type, so none of them was there before, and
none is there afterwards; and all edges between the same vertices are such references, or none is.
-/

namespace SchemaDelta

open TypeSystem (mentionedType? mentionedType?_eq_some_iff)

/-! ## References -/

/-- Whether the label of a mention tells the name of what is mentioned. -/
def MentionRole.isReference : MentionRole → Bool
  | typeOf _ | interface => true
  | member | directive => false

/-- The role in which a name is mentioned when a type is renamed. -/
def MentionRole.renamed (r : Rename) (name : String) : MentionRole → MentionRole
  | typeOf rendered => typeOf (TypeRef.renamed r ⟨name, rendered⟩).rendered
  | role => role

theorem MentionRole.ne_directive {role : MentionRole} (h : role.isReference = true) :
    role ≠ directive := by
  rintro rfl
  cases h

@[simp]
theorem MentionRole.isReference_renamed (r : Rename) (name : String) (role : MentionRole) :
    (role.renamed r name).isReference = role.isReference := by
  cases role <;> rfl

/-- Whether a name is what the text of a mention of it says. -/
def MentionRole.Tells (name : String) (role : MentionRole) : Prop :=
  ∀ rendered, role = .typeOf rendered → rendered.toList.filter Sdl.isNamePart = name.toList

/-- A label that tells a name is that of references only, and of no other name. -/
theorem MentionRole.eq_of_label_eq {role role' : MentionRole} {name name' : String}
    (h : role.label name = role'.label name') (hrole : role.isReference = true)
    (htells : role.Tells name) (htells' : role'.Tells name') :
    role'.isReference = true ∧ name = name' := by
  cases role with
  | typeOf rendered =>
    obtain rfl := Label.eq_of_typeOf_eq_label h
    refine ⟨rfl, String.toList_inj.1 ?_⟩
    rw [← htells rendered rfl, ← htells' rendered rfl]
  | interface =>
    have himplements := Label.isImplements_implementing name
    rw [show Label.implementing name = role'.label name' from h] at himplements
    cases role' with
    | typeOf rendered =>
      rw [MentionRole.label, Label.isImplements_typeOf] at himplements
      cases himplements
    | interface => exact ⟨rfl, (String.append_right_inj Label.implementsStart).1 h⟩
    | member => exact absurd himplements (show ¬ Label.isImplements Label.member = true by decide)
    | directive =>
      exact absurd himplements (show ¬ Label.isImplements Label.directive = true by decide)
  | member | directive => cases hrole

/-- In one role a kind mentions, unless it has a type, which may be written in many ways. -/
theorem Mentions.eq_or_typeOf {kind : ElementKind} {role role' : MentionRole}
    (h : Mentions kind role) (h' : Mentions kind role') :
    role = role' ∨ ∃ rendered rendered', role = .typeOf rendered ∧ role' = .typeOf rendered' := by
  cases h with
  | typeOf hkind rendered =>
    cases h' with
    | typeOf _ rendered' => exact .inr ⟨rendered, rendered', rfl, rfl⟩
    | _ => cases hkind
  | _ =>
    cases h' with
    | typeOf hkind => cases hkind
    | _ => exact .inl rfl

theorem TypeRef.filter_renamed {r : Rename} {t : TypeRef} (ht : t.IsWritten)
    (hnewName : IsName r.newName) : (t.renamed r).rendered.toList.filter Sdl.isNamePart =
      (t.renamed r).name.toList := by
  unfold renamed
  split
  · exact filter_rendered t hnewName
  · rw [ht.2]
    exact filter_rendered t ht.1

/-- What leads to a type is a mention of it. -/
theorem TypeSystem.exists_mention_of_target {ts : TypeSystem} {g : Graph} {entry : Entry}
    {link : Link} {u : Vertex} (h : Graph.ofTypeSystem ts = .ok g) (hmem : entry ∈ ts.entries)
    (hlink : ts.link? entry = some link) (hu : ts.Has u) (htype : u.kind.isType = true)
    (htarget : u.place = link.target) :
    ∃ role, role ≠ .directive ∧ entry = .mention link.source u.name role := by
  cases entry with
  | element owner label w =>
    -- a part of a definition is no type
    cases hlink
    have hkind : u.kind = w.kind := congrArg Place.kind htarget
    have hpart := (owns_of_mem_entries hmem).isDefinition
    rw [← hkind, ElementKind.isDefinition_iff.2 (.inl htype)] at hpart
    cases hpart
  | mention source name role =>
    have hsource := (eq_of_link?_mention hlink).1
    by_cases hrole : role = .directive
    · subst hrole
      obtain ⟨d, -, rfl⟩ := Option.map_eq_some_iff.1 hlink
      have hkind : u.kind = .directive := congrArg Place.kind htarget
      rw [hkind] at htype
      cases htype
    · obtain ⟨w, hw, -, rfl, hplace⟩ := exists_typePlace? h hmem hrole
      rw [link?_mention hrole, hplace] at hlink
      have hwlink : w.place = link.target := congrArg (·.target) (Option.some.inj hlink)
      obtain rfl : u = w := hu.eq_of_place h hw (htarget.trans hwlink.symm)
      exact ⟨role, hrole, by rw [hsource]⟩

/-! ## Mentions side by side -/

namespace Rename

variable {r : Rename}

/-- Whether an entry is a reference to a type that is renamed. -/
def isReference (r : Rename) : Entry → Bool
  | .mention _ name role => r.kind.isType && name == r.name && role.isReference
  | .element .. => false

theorem isReference_iff {entry : Entry} : r.isReference entry = true ↔
    r.kind.isType = true ∧ ∃ source role, role.isReference = true ∧
      entry = .mention source r.name role := by
  cases entry with
  | element owner label v => simp [isReference]
  | mention source name role =>
    simp only [isReference, Bool.and_eq_true, beq_iff_eq, Entry.mention.injEq]
    constructor
    · rintro ⟨⟨htype, rfl⟩, hrole⟩
      exact ⟨htype, source, role, hrole, rfl, rfl, rfl⟩
    · rintro ⟨htype, _, _, hrole, -, rfl, rfl⟩
      exact ⟨⟨htype, rfl⟩, hrole⟩

theorem typeName_name (htype : r.kind.isType = true) : r.typeName r.name = r.newName :=
  if_pos ⟨htype, rfl⟩

theorem MovesEntry.exists_mention {source : Place} {name : String} {role : MentionRole}
    {entry' : Entry} (h : r.MovesEntry (.mention source name role) entry') :
    ∃ source' name', entry' = .mention source' name' (role.renamed r name) ∧
      (role ≠ .directive → name' = r.typeName name) := by
  cases h with
  | typeOf _ source' t => exact ⟨source', _, rfl, fun _ => t.name_renamed⟩
  | interface _ source' => exact ⟨source', _, rfl, fun _ => rfl⟩
  | member _ source' => exact ⟨source', _, rfl, fun _ => rfl⟩
  | directive _ source' => exact ⟨source', _, rfl, fun hrole => absurd rfl hrole⟩

/-- What is no reference to the type keeps its label. -/
theorem label_renamed {name name' : String} {role : MentionRole} {source : Place}
    (hname : role ≠ .directive → name' = r.typeName name)
    (h : r.isReference (.mention source name role) = false) :
    (role.renamed r name).label name' = role.label name := by
  have hother (hrole : role.isReference = true) : ¬ (r.kind.isType = true ∧ name = r.name) := by
    rintro ⟨htype, rfl⟩
    rw [isReference_iff.2 ⟨htype, source, role, hrole, rfl⟩] at h
    cases h
  cases role with
  | typeOf rendered =>
    have hsame : TypeRef.renamed r ⟨name, rendered⟩ = ⟨name, rendered⟩ := if_neg (hother rfl)
    rw [MentionRole.renamed, hsame]
    rfl
  | interface =>
    rw [hname MentionRole.noConfusion, typeName, if_neg (hother rfl)]
    rfl
  | member | directive => rfl

end Rename

namespace Rename.Renames

variable {r : Rename} {old new : TypeSystem} {oldGraph newGraph : Graph} {v : Vertex}
  (h : r.Renames old new)

include h

/-- What stands beside an entry. -/
theorem exists_beside {entry' : Entry} (hmem : entry' ∈ new.entries) :
    ∃ entry ∈ old.entries, (entry, entry') ∈ old.entries.zip new.entries ∧
      r.MovesEntry entry entry' := by
  obtain ⟨i, hi⟩ := List.mem_iff_getElem?.1 hmem
  have hlength := h.entries.moves.length_eq
  have hlt : i < old.entries.length := hlength ▸ (List.getElem?_eq_some_iff.1 hi).1
  have hpair : (old.entries[i], entry') ∈ old.entries.zip new.entries :=
    List.mem_of_getElem? (List.getElem?_zip_eq_some.2 ⟨List.getElem?_eq_getElem hlt, hi⟩)
  exact ⟨_, List.getElem_mem hlt, hpair, (List.forall₂_iff_zip.1 h.entries.moves).2 hpair⟩

/-- What stands beside a reference to the type is a reference to it by its other name. -/
theorem exists_reference_beside {pair : Entry × Entry}
    (hpair : pair ∈ old.entries.zip new.entries) (hreference : r.isReference pair.1 = true) :
    r.kind.isType = true ∧ ∃ source source' role, role.isReference = true ∧
      pair = (.mention source r.name role,
        .mention source' r.newName (role.renamed r r.name)) := by
  obtain ⟨entry, entry'⟩ := pair
  obtain ⟨htype, source, role, hrole, rfl⟩ := isReference_iff.1 hreference
  have hmoves : r.MovesEntry _ entry' := (List.forall₂_iff_zip.1 h.entries.moves).2 hpair
  obtain ⟨source', name', rfl, hname⟩ := hmoves.exists_mention
  obtain rfl := (hname (MentionRole.ne_directive hrole)).trans (typeName_name htype)
  exact ⟨htype, source, source', role, hrole, rfl⟩

section Types

variable (htype : r.kind.isType = true)

include htype

theorem tells_old {source : Place} {name : String} {role : MentionRole}
    (hmem : .mention source name role ∈ old.entries) : role.Tells name := by
  rintro rendered rfl
  have hwritten : TypeRef.IsWritten ⟨name, rendered⟩ := h.written htype _ hmem
  rw [show rendered = _ from hwritten.2]
  exact TypeRef.filter_rendered _ hwritten.1

theorem tells_new {source : Place} {name : String} {role : MentionRole}
    (hmem : .mention source name role ∈ new.entries) : role.Tells name := by
  rintro rendered rfl
  obtain ⟨entry, hentry, -, hmoves⟩ := h.exists_beside hmem
  cases hmoves with
  | typeOf source source' t =>
    exact TypeRef.filter_renamed (h.written htype _ hentry) h.newName

theorem name_not_mentioned {entry' : Entry} (hmem : entry' ∈ new.entries) :
    mentionedType? entry' ≠ some r.name := by
  obtain ⟨entry, -, -, hmoves⟩ := h.exists_beside hmem
  rw [hmoves.mentionedType?_eq]
  intro hname
  obtain ⟨name, -, hrenamed⟩ := Option.map_eq_some_iff.1 hname
  unfold typeName at hrenamed
  split at hrenamed
  · exact h.ne hrenamed
  · next hother => exact hother ⟨htype, hrenamed⟩

end Types

/-! ## Labels side by side -/

section Pairs

variable {pair : Entry × Entry} {link link' : TypeSystem.Link}
  (hpair : pair ∈ old.entries.zip new.entries) (hlink : old.link? pair.1 = some link)
  (hlink' : new.link? pair.2 = some link')

include hpair hlink hlink'

/-- Exactly the references to a type that is renamed have other labels afterwards. -/
theorem label_ne_iff : link.label ≠ link'.label ↔ r.isReference pair.1 = true := by
  constructor
  · have hmoves : r.MovesEntry pair.1 pair.2 := (List.forall₂_iff_zip.1 h.entries.moves).2 hpair
    obtain ⟨entry, entry'⟩ := pair
    cases entry with
    | element owner label v =>
      cases hmoves
      cases hlink
      cases hlink'
      exact fun hne => absurd rfl hne
    | mention source name role =>
      obtain ⟨source', name', rfl, hname⟩ := hmoves.exists_mention
      rw [(TypeSystem.eq_of_link?_mention hlink).2, (TypeSystem.eq_of_link?_mention hlink').2]
      intro hne
      by_contra hother
      exact hne (label_renamed hname (Bool.eq_false_iff.2 hother)).symm
  -- the labels of a reference tell two names
  · intro hreference heq
    obtain ⟨htype, source, source', role, hrole, rfl⟩ := h.exists_reference_beside hpair hreference
    obtain ⟨hmem, hmem'⟩ := List.of_mem_zip hpair
    rw [(TypeSystem.eq_of_link?_mention hlink).2,
      (TypeSystem.eq_of_link?_mention hlink').2] at heq
    exact h.ne (MentionRole.eq_of_label_eq heq hrole (h.tells_old htype hmem)
      (h.tells_new htype hmem')).2.symm

theorem exists_reference (hne : link.label ≠ link'.label) :
    r.kind.isType = true ∧ ∃ source role, role.isReference = true ∧
      .mention source r.name role ∈ old.entries ∧ link.source = source ∧
      old.link? (.mention source r.name role) = some link ∧ link.label = role.label r.name ∧
      link'.label = (role.renamed r r.name).label r.newName := by
  obtain ⟨htype, source, source', role, hrole, rfl⟩ :=
    h.exists_reference_beside hpair ((h.label_ne_iff hpair hlink hlink').1 hne)
  obtain ⟨hsource, hlabel⟩ := TypeSystem.eq_of_link?_mention hlink
  exact ⟨htype, source, role, hrole, (List.of_mem_zip hpair).1, hsource, hlink, hlabel,
    (TypeSystem.eq_of_link?_mention hlink').2⟩

/-- A label that changes is in no edge afterwards. -/
theorem label_ne_of_mem_new (hne : link.label ≠ link'.label) {entry' : Entry}
    (hmem' : entry' ∈ new.entries) {other : TypeSystem.Link}
    (hother : new.link? entry' = some other) : other.label ≠ link.label := by
  obtain ⟨htype, source, role, hrole, hmem, -, -, hlabel, -⟩ :=
    h.exists_reference hpair hlink hlink' hne
  rw [hlabel]
  intro heq
  cases entry' with
  | element owner label v =>
    cases hother
    have howned := (TypeSystem.owns_of_mem_entries hmem').isOwnership
    rw [show label = role.label r.name from heq, Label.isOwnership_mention] at howned
    cases howned
  | mention source' name' role' =>
    rw [(TypeSystem.eq_of_link?_mention hother).2] at heq
    obtain ⟨hrole', rfl⟩ := MentionRole.eq_of_label_eq heq.symm hrole (h.tells_old htype hmem)
      (h.tells_new htype hmem')
    refine h.name_not_mentioned htype hmem' (mentionedType?_eq_some_iff.2 ⟨_, _, ?_, rfl⟩)
    rintro rfl
    cases hrole'

/-- Everything that leads between the ends of a reference to the type is such a reference in the
same words. -/
theorem labels_eq_of_ends (hold : Graph.ofTypeSystem old = .ok oldGraph)
    (hne : link.label ≠ link'.label) {other : Entry × Entry} {parallel parallel' : TypeSystem.Link}
    (hother : other ∈ old.entries.zip new.entries) (hparallel : old.link? other.1 = some parallel)
    (hparallel' : new.link? other.2 = some parallel') (hsource : parallel.source = link.source)
    (htarget : parallel.target = link.target) :
    parallel.label = link.label ∧ parallel'.label = link'.label := by
  obtain ⟨htype, source, role, hrole, hmem, hholder, hmention, hlabel, hlabel'⟩ :=
    h.exists_reference hpair hlink hlink' hne
  have hno := MentionRole.ne_directive hrole
  obtain ⟨u, hu, hutype, huname, hplace⟩ := TypeSystem.exists_typePlace? hold hmem hno
  rw [TypeSystem.link?_mention hno, hplace] at hmention
  have hulink : u.place = link.target := congrArg (·.target) (Option.some.inj hmention)
  have hmoves : r.MovesEntry other.1 other.2 := (List.forall₂_iff_zip.1 h.entries.moves).2 hother
  have hmem' := (List.of_mem_zip hother).1
  obtain ⟨entry, entry'⟩ := other
  obtain ⟨role', hdirective, rfl⟩ := TypeSystem.exists_mention_of_target hold hmem' hparallel hu
    hutype (hulink.trans htarget.symm)
  rw [hsource, hholder, huname] at hmem' hparallel hmoves
  have hroles : role' = role := by
    have hfits := (MentionsFit.typeSystem old).fits source r.name role hmem
    rcases ((MentionsFit.typeSystem old).fits source r.name role' hmem').eq_or_typeOf hfits with
      heq | ⟨rendered', rendered, rfl, rfl⟩
    · exact heq
    · rw [TypeSystem.eq_of_mentions hold hmem' hmem]
  subst hroles
  obtain ⟨_, name', rfl, hname'⟩ := hmoves.exists_mention
  rw [(TypeSystem.eq_of_link?_mention hparallel).2, (TypeSystem.eq_of_link?_mention hparallel').2,
    hname' hno, typeName_name htype, hlabel, hlabel']
  exact ⟨rfl, rfl⟩

end Pairs

end Rename.Renames

/-! ## Graphs side by side -/

/-- Whether a graph becomes another when an element is renamed: number by number. -/
structure Graph.BecomesBy (r : Rename) (g g' : Graph) : Prop where
  name : IsName r.name
  newName : IsName r.newName
  ne : r.newName ≠ r.name
  vertices : List.Forall₂ r.MovesVertex g.vertices g'.vertices
  ends : List.Forall₂ (fun e e' => e.one = e'.one ∧ e.two = e'.two) g.edges g'.edges
  /-- What owns what is as it was. -/
  owns : ∀ pair ∈ g.edges.zip g'.edges, pair.1.label ≠ pair.2.label →
    pair.1.isOwnership = false ∧ pair.2.isOwnership = false
  /-- A label that changes is in no edge afterwards. -/
  gone : ∀ pair ∈ g.edges.zip g'.edges, pair.1.label ≠ pair.2.label →
    ∀ e ∈ g'.edges, e.label ≠ pair.1.label
  /-- All edges between the same vertices change their labels alike. -/
  parallel : ∀ pair ∈ g.edges.zip g'.edges, pair.1.label ≠ pair.2.label →
    ∀ other ∈ g.edges.zip g'.edges, other.1.one = pair.1.one → other.1.two = pair.1.two →
      other.1.label = pair.1.label ∧ other.2.label = pair.2.label

namespace Rename.Renames

variable {r : Rename} {old new : TypeSystem} {oldGraph newGraph : Graph} {v : Vertex}
  (h : r.Renames old new) (hold : Graph.ofTypeSystem old = .ok oldGraph)
  (hnew : Graph.ofTypeSystem new = .ok newGraph) (hv : old.Has v) (hat : r.IsAt v)

include h hold hnew hv hat

/-- Edges that stand side by side come from entries that do so. -/
theorem exists_links {pair : Edge × Edge} (hpair : pair ∈ oldGraph.edges.zip newGraph.edges) :
    ∃ entries ∈ old.entries.zip new.entries, ∃ link link', old.link? entries.1 = some link ∧
      new.link? entries.2 = some link' ∧ link.edge? oldGraph.vertices = some pair.1 ∧
      link'.edge? newGraph.vertices = some pair.2 ∧ link.label = pair.1.label ∧
      link'.label = pair.2.label := by
  obtain ⟨-, -, entries, hentries, link, link', hlink, hlink', hedge, hedge'⟩ :=
    (List.forall₂_iff_zip.1 (h.edges_beside hold hnew hv hat)).2 hpair
  exact ⟨entries, hentries, link, link', hlink, hlink', hedge, hedge',
    (TypeSystem.Link.edge?_eq_some_iff.1 hedge).2.2.symm,
    (TypeSystem.Link.edge?_eq_some_iff.1 hedge').2.2.symm⟩

theorem becomesBy : oldGraph.BecomesBy r newGraph where
  name := h.name
  newName := h.newName
  ne := h.ne
  vertices := by
    rw [TypeSystem.vertices_eq hold, TypeSystem.vertices_eq hnew]
    exact (h.vertices_beside hold hv hat).1
  ends := (h.edges_beside hold hnew hv hat).imp fun _ _ hends => ⟨hends.1, hends.2.1⟩
  owns pair hpair hne := by
    obtain ⟨entries, hentries, link, link', hlink, hlink', -, -, hlabel, hlabel'⟩ :=
      h.exists_links hold hnew hv hat hpair
    rw [← hlabel, ← hlabel'] at hne
    obtain ⟨-, _, role, -, -, -, -, hmention, hmention'⟩ :=
      h.exists_reference hentries hlink hlink' hne
    rw [Edge.isOwnership, Edge.isOwnership, ← hlabel, ← hlabel', hmention, hmention']
    exact ⟨Label.isOwnership_mention .., Label.isOwnership_mention ..⟩
  gone pair hpair hne e he := by
    obtain ⟨entries, hentries, link, link', hlink, hlink', -, -, hlabel, hlabel'⟩ :=
      h.exists_links hold hnew hv hat hpair
    rw [← hlabel, ← hlabel'] at hne
    rw [TypeSystem.edges_eq hnew, List.mem_filterMap] at he
    obtain ⟨other, hother, hedge⟩ := he
    obtain ⟨entry', hmem', hother⟩ := List.mem_filterMap.1 hother
    rw [← hlabel, (TypeSystem.Link.edge?_eq_some_iff.1 hedge).2.2]
    exact h.label_ne_of_mem_new hentries hlink hlink' hne hmem' hother
  parallel pair hpair hne other hother hone htwo := by
    obtain ⟨entries, hentries, link, link', hlink, hlink', hedge, -, hlabel, hlabel'⟩ :=
      h.exists_links hold hnew hv hat hpair
    obtain ⟨entries₂, hentries₂, link₂, link₂', hlink₂, hlink₂', hedge₂, -, hlabel₂, hlabel₂'⟩ :=
      h.exists_links hold hnew hv hat hother
    obtain ⟨hsource, htarget, -⟩ := TypeSystem.Link.edge?_eq_some_iff.1 hedge
    obtain ⟨hsource₂, htarget₂, -⟩ := TypeSystem.Link.edge?_eq_some_iff.1 hedge₂
    rw [hone] at hsource₂
    rw [htwo] at htarget₂
    rw [← hlabel, ← hlabel'] at hne ⊢
    rw [← hlabel₂, ← hlabel₂']
    exact h.labels_eq_of_ends hentries hlink hlink' hold hne hentries₂ hlink₂ hlink₂'
      (Graph.place_eq_of_find? hsource₂ hsource) (Graph.place_eq_of_find? htarget₂ htarget)

end Rename.Renames

end SchemaDelta
