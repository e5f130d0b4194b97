import SchemaDelta.Proofs.Graph.Subjects
import SchemaDelta.Proofs.Renaming.Outlines

/-!
The graph of a type system in which an element is renamed. It has the same vertices under the same
numbers, but for the name of the one that is renamed and the paths inside it; and the same edges,
but for the labels of references to a type that is renamed.
-/

namespace SchemaDelta

open TypeSystem (mentionedType? mentionedType?_eq_some_iff entryVertices entryVertices_cons)

/-! ## Vertices of entries -/

namespace Rename

variable {r : Rename} {entry entry' : Entry} {entries entries' : List Entry}

theorem MovesEntry.mentionedType?_eq (h : r.MovesEntry entry entry') :
    mentionedType? entry' = (mentionedType? entry).map r.typeName := by
  cases h with
  | typeOf source source' t => exact congrArg some t.name_renamed
  | _ => rfl

/-- Whether a list of known types and one for the renamed type system tell of each mentioned type
whether it is known, and those that are not known keep their names. -/
structure KnowAlike (r : Rename) (known known' : List String) (name : String) : Prop where
  mem_iff : r.typeName name ∈ known' ↔ name ∈ known
  eq_self : name ∉ known → r.typeName name = name

theorem KnowAlike.cons {known known' : List String} {name : String}
    (h : r.KnowAlike known known' name) (other : String) :
    r.KnowAlike (other :: known) (other :: known') name where
  mem_iff := by
    rw [List.mem_cons, List.mem_cons, h.mem_iff]
    by_cases hknown : name ∈ known
    · simp [hknown]
    · rw [h.eq_self hknown]
  eq_self hunknown := h.eq_self fun hmem => hunknown (List.mem_cons_of_mem _ hmem)

/-- Two lists of vertices side by side that come from two lists of entries: those of elements that
stand side by side do so, and what is mentioned without being known is in both. -/
structure VerticesBeside (r : Rename) (known : List String) (entries entries' : List Entry)
    (vs ws : List Vertex) : Prop where
  moves : List.Forall₂ r.MovesVertex vs ws
  elements : ∀ pair ∈ entries.zip entries', ∀ v w, pair.1.vertex? = some v →
    pair.2.vertex? = some w → (v, w) ∈ vs.zip ws
  scalars : ∀ entry ∈ entries, ∀ name, mentionedType? entry = some name → name ∉ known →
    (builtInScalarVertex name, builtInScalarVertex name) ∈ vs.zip ws

namespace VerticesBeside

variable {known : List String} {vs ws : List Vertex} {v w : Vertex}

theorem nil : r.VerticesBeside known [] [] [] [] := ⟨.nil, by simp, by simp⟩

/-- What brings no vertex and mentions nothing unknown. -/
theorem skip (h : r.VerticesBeside known entries entries' vs ws) (hnone : entry.vertex? = none)
    (hknown : ∀ name, mentionedType? entry = some name → name ∈ known) :
    r.VerticesBeside known (entry :: entries) (entry' :: entries') vs ws where
  moves := h.moves
  elements pair hpair v w hv hw := by
    rcases List.mem_cons.1 hpair with rfl | hpair
    · cases hnone.symm.trans hv
    · exact h.elements pair hpair v w hv hw
  scalars e he name hname hunknown := by
    rcases List.mem_cons.1 he with rfl | he
    · exact absurd (hknown name hname) hunknown
    · exact h.scalars e he name hname hunknown

theorem element (h : r.VerticesBeside known entries entries' vs ws) (hmoves : r.MovesVertex v w)
    (owner owner' : Place) (label : String) :
    r.VerticesBeside known (.element owner label v :: entries)
      (.element owner' label w :: entries') (v :: vs) (w :: ws) where
  moves := .cons hmoves h.moves
  elements pair hpair v' w' hv' hw' := by
    rcases List.mem_cons.1 hpair with rfl | hpair
    · cases hv'
      cases hw'
      exact List.mem_cons_self
    · exact List.mem_cons_of_mem _ (h.elements pair hpair v' w' hv' hw')
  scalars e he name hname hunknown := by
    rcases List.mem_cons.1 he with rfl | he
    · cases hname
    · exact List.mem_cons_of_mem _ (h.scalars e he name hname hunknown)

/-- The first mention of what is not known brings its vertex, and later ones bring none. -/
theorem mention {name : String}
    (h : r.VerticesBeside (name :: known) entries entries' vs ws)
    (hname : mentionedType? entry = some name) (hnone : entry.vertex? = none)
    (hother : ¬ r.IsAt (builtInScalarVertex name)) :
    r.VerticesBeside known (entry :: entries) (entry' :: entries')
      (builtInScalarVertex name :: vs) (builtInScalarVertex name :: ws) where
  moves := .cons (.same hother) h.moves
  elements pair hpair v w hv hw := by
    rcases List.mem_cons.1 hpair with rfl | hpair
    · cases hnone.symm.trans hv
    · exact List.mem_cons_of_mem _ (h.elements pair hpair v w hv hw)
  scalars e he other hmentioned hunknown := by
    by_cases heq : other = name
    · rw [heq]
      exact List.mem_cons_self
    · rcases List.mem_cons.1 he with rfl | he
      · cases hname.symm.trans hmentioned
        exact absurd rfl heq
      · exact List.mem_cons_of_mem _ (h.scalars e he other hmentioned
          fun hmem => (List.mem_cons.1 hmem).elim heq hunknown)

end VerticesBeside

/-- Entries side by side have their vertices side by side. -/
theorem entryVertices_beside (hne : r.newName ≠ r.name)
    (hmoves : List.Forall₂ r.MovesEntry entries entries')
    {known known' : List String} (hknown : ∀ entry ∈ entries, ∀ name,
      mentionedType? entry = some name → r.KnowAlike known known' name) :
    r.VerticesBeside known entries entries' (entryVertices known entries)
      (entryVertices known' entries') := by
  induction hmoves generalizing known known' with
  | nil => exact .nil
  | @cons entry entry' entries entries' hentry hmoves ih =>
    have htail {known known' : List String} (h : ∀ e ∈ entry :: entries, ∀ name,
        mentionedType? e = some name → r.KnowAlike known known' name) :=
      ih fun e he => h e (List.mem_cons_of_mem _ he)
    cases hname : mentionedType? entry with
    | some name =>
      have hname' : mentionedType? entry' = some (r.typeName name) := by
        rw [hentry.mentionedType?_eq, hname]
        rfl
      have hnone : entry.vertex? = none := by
        obtain ⟨source, role, -, rfl⟩ := mentionedType?_eq_some_iff.1 hname
        rfl
      have halike := hknown entry List.mem_cons_self name hname
      rw [entryVertices_cons hname, entryVertices_cons hname']
      by_cases hmem : name ∈ known
      · rw [if_pos hmem, if_pos (halike.mem_iff.2 hmem)]
        exact (htail hknown).skip hnone fun other hother =>
          Option.some.inj (hname.symm.trans hother) ▸ hmem
      · have hself := halike.eq_self hmem
        have hother : ¬ r.IsAt (builtInScalarVertex name) := fun hat =>
          hne ((if_pos ⟨hat.kind ▸ rfl, hat.name⟩ : r.typeName name = _).symm.trans
            (hself.trans hat.name))
        rw [if_neg hmem, if_neg (mt halike.mem_iff.1 hmem), hself]
        exact (htail fun e he other hother => (hknown e he other hother).cons name).mention
          hname hnone hother
    | none =>
      cases hentry with
      | element owner owner' label hv => exact (htail hknown).element hv owner owner' label
      | directive source source' name =>
        refine (htail hknown).skip rfl fun other hother => ?_
        cases hname.symm.trans hother
      | _ => cases hname

end Rename

namespace Rename.Renames

variable {r : Rename} {old new : TypeSystem} {oldGraph newGraph : Graph} {v : Vertex}
  (h : r.Renames old new) (hold : Graph.ofTypeSystem old = .ok oldGraph)
  (hnew : Graph.ofTypeSystem new = .ok newGraph) (hv : old.Has v) (hat : r.IsAt v)

include h hold hv hat

/-! ## Names of types -/

/-- A type that is renamed is defined. -/
theorem exists_type (htype : r.kind.isType = true) :
    r.start = "" ∧ ∃ d ∈ old.types.entries, d.name = r.name ∧ d.body.kind = r.kind := by
  have hkind := hat.kind
  have hname := hat.name
  cases hv with
  | @type d hd =>
    refine ⟨?_, d, hd, hname, hkind⟩
    have hpath : d.name = r.start ++ r.name := hat.path
    rw [← hname] at hpath
    exact ((String.append_left_inj d.name).1 (String.empty_append.trans hpath)).symm
  | directive hd =>
    rw [← hkind] at htype
    exact absurd htype Bool.false_ne_true
  | element hmem =>
    have hdefinition := (TypeSystem.owns_of_mem_entries hmem).isDefinition
    rw [hkind, ElementKind.isDefinition_iff.2 (.inl htype)] at hdefinition
    cases hdefinition
  | @builtIn source name role hrole hmem hunknown =>
    have hbuiltIn := TypeSystem.isBuiltIn_of_mention hold hmem hrole hunknown
    rw [show name = r.name from hname, (h.builtIn htype).1] at hbuiltIn
    cases hbuiltIn

theorem name_renamed {d : TypeDefinition} (hd : d ∈ old.types.entries) :
    (d.renamed r).name = r.typeName d.name := by
  have hiff : (d.body.kind = r.kind ∧ "" = r.start ∧ d.name = r.name) ↔
      r.kind.isType = true ∧ d.name = r.name := by
    constructor
    · rintro ⟨hkind, -, hname⟩
      exact ⟨hkind ▸ d.body.isType_kind, hname⟩
    · rintro ⟨htype, hname⟩
      obtain ⟨hstart, d', hd', hname', hkind⟩ := h.exists_type hold hv hat htype
      obtain rfl := List.inj_on_of_nodup_map old.types.distinct hd hd' (hname.trans hname'.symm)
      exact ⟨hkind, hstart.symm, hname⟩
  exact if_congr hiff rfl rfl

theorem names_eq : new.types.names = old.types.names.map r.typeName := by
  rw [Catalog.names, Catalog.names, h.types, List.map_map, List.map_map]
  exact List.map_congr_left fun d hd => h.name_renamed hold hv hat hd

variable {entry : Entry} {name : String} (hmem : entry ∈ old.entries)
  (hname : mentionedType? entry = some name)

theorem typeName_eq_self (hunknown : name ∉ old.types.names) : r.typeName name = name := by
  refine if_neg fun hrenamed => ?_
  obtain ⟨-, d, hd, hdname, -⟩ := h.exists_type hold hv hat hrenamed.1
  exact hunknown (List.mem_map.2 ⟨d, hd, hdname.trans hrenamed.2.symm⟩)

include hmem hname

/-- A type is mentioned by its other name only. -/
theorem typeName_mem_iff : r.typeName name ∈ new.types.names ↔ name ∈ old.types.names := by
  rw [h.names_eq hold hv hat]
  refine ⟨fun hknown => ?_, List.mem_map_of_mem⟩
  by_contra hunknown
  rw [h.typeName_eq_self hold hv hat hunknown, List.mem_map] at hknown
  obtain ⟨other, hother, heq⟩ := hknown
  unfold typeName at heq
  split at heq
  · next hrenamed =>
    -- what is not defined is a built-in scalar, whose name no type is given
    obtain ⟨source, role, hrole, rfl⟩ := mentionedType?_eq_some_iff.1 hname
    have hbuiltIn := TypeSystem.isBuiltIn_of_mention hold hmem hrole
      (Catalog.find?_eq_none_iff.2 hunknown)
    rw [← heq, (h.builtIn hrenamed.1).2] at hbuiltIn
    cases hbuiltIn
  · exact hunknown (heq ▸ hother)

theorem knowAlike : r.KnowAlike old.types.names new.types.names name :=
  ⟨h.typeName_mem_iff hold hv hat hmem hname, h.typeName_eq_self hold hv hat⟩

omit hmem hname

/-! ## Vertices -/

theorem vertices_beside :
    List.Forall₂ r.MovesVertex old.vertices new.vertices ∧
    (∀ pair ∈ old.entries.zip new.entries, ∀ v w, pair.1.vertex? = some v →
      pair.2.vertex? = some w → AreBeside old.vertices new.vertices v.place w.place) ∧
    ∀ entry ∈ old.entries, ∀ name, mentionedType? entry = some name → name ∉ old.types.names →
      AreBeside old.vertices new.vertices (builtInScalarVertex name).place
        (builtInScalarVertex name).place := by
  obtain ⟨hvertices, helements, hscalars⟩ := entryVertices_beside h.ne h.entries.moves
    fun entry hmem name hname => h.knowAlike hold hv hat hmem hname
  have hlength := h.definitionVertices.length_eq
  refine ⟨List.rel_append h.definitionVertices hvertices, fun pair hpair v w hv hw => ?_,
    fun entry hmem name hname hunknown => ?_⟩
  · exact AreBeside.append_left ⟨_, helements pair hpair v w hv hw, rfl, rfl⟩ hlength
  · exact AreBeside.append_left ⟨_, hscalars entry hmem name hname hunknown, rfl, rfl⟩ hlength

/-- What entries that stand side by side are about stands side by side. -/
theorem beside_of_holder {pair : Entry × Entry} (hpair : pair ∈ old.entries.zip new.entries) :
    AreBeside old.vertices new.vertices pair.1.holder pair.2.holder := by
  rcases h.entries.held pair hpair with hroot | ⟨other, hother, v, w, hv', hw', hp, hq⟩
  · exact hroot.append_right h.definitionVertices.length_eq _ _
  · rw [← hp, ← hq]
    exact (h.vertices_beside hold hv hat).2.1 other hother v w hv' hw'

/-- A type that is mentioned stands beside itself under the name by which it is mentioned
afterwards. -/
theorem beside_of_typePlace? {entry : Entry} {name : String} (hmem : entry ∈ old.entries)
    (hname : mentionedType? entry = some name) : ∃ p q, old.typePlace? name = some p ∧
      new.typePlace? (r.typeName name) = some q ∧ AreBeside old.vertices new.vertices p q := by
  have halike := h.knowAlike hold hv hat hmem hname
  unfold TypeSystem.typePlace?
  cases hd : old.type? name with
  | some d =>
    obtain ⟨hdefined, rfl⟩ := Catalog.find?_eq_some_iff.1 hd
    have hd' : new.type? (r.typeName d.name) = some (d.renamed r) := by
      refine Catalog.find?_eq_some_iff.2 ⟨?_, h.name_renamed hold hv hat hdefined⟩
      rw [h.types]
      exact List.mem_map_of_mem hdefined
    rw [hd']
    exact ⟨_, _, rfl, rfl, (h.beside_of_type hdefined).append_right
      h.definitionVertices.length_eq _ _⟩
  | none =>
    have hunknown := Catalog.find?_eq_none_iff.1 hd
    have hd' : new.type? (r.typeName name) = none :=
      Catalog.find?_eq_none_iff.2 (mt halike.mem_iff.1 hunknown)
    obtain ⟨source, role, hrole, rfl⟩ := mentionedType?_eq_some_iff.1 hname
    have hbuiltIn := TypeSystem.isBuiltIn_of_mention hold hmem hrole hd
    rw [hd', halike.eq_self hunknown, hbuiltIn]
    exact ⟨_, _, rfl, rfl, (h.vertices_beside hold hv hat).2.2 _ hmem name hname hunknown⟩

omit hold hv hat in
theorem beside_of_directive? (name : String) :
    old.directive? name = none ∧ new.directive? name = none ∨
      (∃ d d', old.directive? name = some d ∧ new.directive? name = some d') ∧
        AreBeside old.vertices new.vertices (directivePlace name) (directivePlace name) := by
  cases hd : old.directive? name with
  | some d =>
    obtain ⟨hdefined, rfl⟩ := Catalog.find?_eq_some_iff.1 hd
    refine .inr ⟨⟨d, d.renamed r, rfl, Catalog.find?_eq_some_iff.2 ⟨?_, rfl⟩⟩,
      (h.beside_of_directive hdefined).append_right h.definitionVertices.length_eq _ _⟩
    rw [h.directives]
    exact List.mem_map_of_mem hdefined
  | none =>
    refine .inl ⟨rfl, Catalog.find?_eq_none_iff.2 ?_⟩
    rw [Catalog.names, h.directives, List.map_map]
    exact Catalog.find?_eq_none_iff.1 hd

/-! ## Links -/

/-- Entries that stand side by side both state a relation or none, between elements that stand side
by side. -/
theorem link?_beside {pair : Entry × Entry} (hpair : pair ∈ old.entries.zip new.entries) :
    old.link? pair.1 = none ∧ new.link? pair.2 = none ∨
      ∃ link link', old.link? pair.1 = some link ∧ new.link? pair.2 = some link' ∧
        AreBeside old.vertices new.vertices link.source link'.source ∧
        AreBeside old.vertices new.vertices link.target link'.target := by
  have hholder := h.beside_of_holder hold hv hat hpair
  have hentry : r.MovesEntry pair.1 pair.2 := (List.forall₂_iff_zip.1 h.entries.moves).2 hpair
  have hmem : pair.1 ∈ old.entries := (List.of_mem_zip hpair).1
  obtain ⟨entry, entry'⟩ := pair
  -- what mentions a type relates to that type
  have hmention {source source' : Place} {name name' : String} {role role' : MentionRole}
      (hentry : entry = .mention source name role) (hentry' : entry' = .mention source' name' role')
      (hrole : role ≠ .directive) (hrole' : role' ≠ .directive) (hname : name' = r.typeName name) :
      ∃ link link', old.link? entry = some link ∧ new.link? entry' = some link' ∧
        AreBeside old.vertices new.vertices link.source link'.source ∧
        AreBeside old.vertices new.vertices link.target link'.target := by
    subst hentry hentry' hname
    obtain ⟨p, q, hp, hq, hbeside⟩ := h.beside_of_typePlace? hold hv hat hmem
      (mentionedType?_eq_some_iff.2 ⟨source, role, hrole, rfl⟩)
    rw [TypeSystem.link?_mention hrole, TypeSystem.link?_mention hrole', hp, hq]
    exact ⟨_, _, rfl, rfl, hholder, hbeside⟩
  cases hentry with
  | element owner owner' label hvw =>
    exact .inr ⟨_, _, rfl, rfl, hholder,
      (h.vertices_beside hold hv hat).2.1 _ hpair _ _ rfl rfl⟩
  | typeOf source source' t =>
    exact .inr (hmention rfl rfl MentionRole.noConfusion MentionRole.noConfusion t.name_renamed)
  | interface source source' name =>
    exact .inr (hmention rfl rfl MentionRole.noConfusion MentionRole.noConfusion rfl)
  | member source source' name =>
    exact .inr (hmention rfl rfl MentionRole.noConfusion MentionRole.noConfusion rfl)
  | directive source source' name =>
    rcases h.beside_of_directive? name with ⟨hd, hd'⟩ | ⟨⟨d, d', hd, hd'⟩, hbeside⟩
    · exact .inl ⟨by rw [TypeSystem.link?, hd]; rfl, by rw [TypeSystem.link?, hd']; rfl⟩
    · refine .inr ⟨_, _, by rw [TypeSystem.link?, hd]; rfl, by rw [TypeSystem.link?, hd']; rfl,
        hholder, hbeside⟩

/-! ## Edges -/

omit h hold hv hat in
/-- What stands side by side has one number in both graphs. -/
theorem exists_find? {p q : Place} (hbeside : AreBeside oldGraph.vertices newGraph.vertices p q) :
    ∃ id, oldGraph.find? p = some id ∧ newGraph.find? q = some id := by
  obtain ⟨⟨v, w⟩, hpair, rfl, rfl⟩ := hbeside
  obtain ⟨id, hid⟩ := List.mem_iff_getElem?.1 hpair
  obtain ⟨hv, hw⟩ := List.getElem?_zip_eq_some.1 hid
  exact ⟨id, Graph.find?_eq_some_iff.2 ⟨v, hv, rfl⟩, Graph.find?_eq_some_iff.2 ⟨w, hw, rfl⟩⟩

include hnew

/-- Entries that stand side by side both have an edge or none, between the same numbers. -/
theorem edge?_beside {pair : Entry × Entry} (hpair : pair ∈ old.entries.zip new.entries) :
    old.link? pair.1 = none ∧ new.link? pair.2 = none ∨
      ∃ link link' e e', old.link? pair.1 = some link ∧ new.link? pair.2 = some link' ∧
        link.edge? oldGraph.vertices = some e ∧ link'.edge? newGraph.vertices = some e' ∧
        e.one = e'.one ∧ e.two = e'.two := by
  refine (h.link?_beside hold hv hat hpair).imp_right ?_
  rintro ⟨link, link', hlink, hlink', hsource, htarget⟩
  rw [← TypeSystem.vertices_eq hold, ← TypeSystem.vertices_eq hnew] at hsource htarget
  obtain ⟨one, hone, hone'⟩ := exists_find? hsource
  obtain ⟨two, htwo, htwo'⟩ := exists_find? htarget
  exact ⟨link, link', ⟨one, two, link.label⟩, ⟨one, two, link'.label⟩, hlink, hlink',
    TypeSystem.Link.edge?_eq_some_iff.2 ⟨hone, htwo, rfl⟩,
    TypeSystem.Link.edge?_eq_some_iff.2 ⟨hone', htwo', rfl⟩, rfl, rfl⟩

/-- Edges that stand side by side lead between the same numbers, and come from entries that stand
side by side. -/
theorem edges_beside : List.Forall₂ (fun e e' => e.one = e'.one ∧ e.two = e'.two ∧
      ∃ pair ∈ old.entries.zip new.entries, ∃ link link', old.link? pair.1 = some link ∧
        new.link? pair.2 = some link' ∧ link.edge? oldGraph.vertices = some e ∧
        link'.edge? newGraph.vertices = some e') oldGraph.edges newGraph.edges := by
  have hentries : List.Forall₂ (fun x y => (x, y) ∈ old.entries.zip new.entries) old.entries
      new.entries := List.forall₂_iff_zip.2 ⟨h.entries.moves.length_eq, id⟩
  rw [TypeSystem.edges_eq hold, TypeSystem.edges_eq hnew, TypeSystem.links, TypeSystem.links,
    List.filterMap_filterMap, List.filterMap_filterMap]
  refine List.rel_filterMap (fun x y hpair => ?_) hentries
  rcases h.edge?_beside hold hnew hv hat hpair with ⟨hnone, hnone'⟩ |
    ⟨link, link', e, e', hlink, hlink', hedge, hedge', hone, htwo⟩
  · rw [hnone, hnone']
    exact .none
  · rw [hlink, hlink', Option.bind_some, Option.bind_some, hedge, hedge']
    exact .some ⟨hone, htwo, (x, y), hpair, link, link', hlink, hlink', hedge, hedge'⟩

end Rename.Renames

end SchemaDelta
