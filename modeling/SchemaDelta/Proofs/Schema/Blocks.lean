import Mathlib.Data.List.DropRight
import SchemaDelta.Proofs.Graph.Inventory
import SchemaDelta.Schema.Block

/-!
What the blocks of a schema document come to. A type is what all blocks of its name give together,
wherever they stand, and its contents are those of the last blocks that agree on its kind. So it
makes no difference whether a type is given at once or in pieces.
-/

namespace SchemaDelta

/-! ## Catalogs -/

namespace Catalog

variable {α : Type} {name : α → String} {c c' : Catalog α name} {a b : α}

theorem mem_entries_put : b ∈ (c.put a).entries ↔ b = a ∨ b ∈ c.entries ∧ name b ≠ name a := by
  unfold put
  split
  · next hold =>
    obtain ⟨old, hmem, hname⟩ := List.mem_map.1 hold
    simp only [replaced, List.mem_map]
    constructor
    · rintro ⟨b', hb', rfl⟩
      by_cases h : name b' = name a
      · exact Or.inl (if_pos h)
      · rw [if_neg h]
        exact Or.inr ⟨hb', h⟩
    · rintro (rfl | ⟨hb, hne⟩)
      · exact ⟨old, hmem, if_pos hname⟩
      · exact ⟨b, hb, if_neg hne⟩
  · next hnew =>
    rw [List.mem_append, List.mem_singleton, or_comm]
    refine or_congr_right ⟨fun hb => ⟨hb, fun heq => hnew ?_⟩, And.left⟩
    exact List.mem_map.2 ⟨b, hb, heq⟩

theorem find?_put (c : Catalog α name) (a : α) (key : String) :
    (c.put a).find? key = if name a = key then some a else c.find? key := by
  refine Option.ext fun b => ?_
  rw [find?_eq_some_iff, mem_entries_put]
  split
  · next hkey =>
    subst hkey
    rw [Option.some.injEq]
    constructor
    · rintro ⟨rfl | ⟨-, hne⟩, heq⟩
      · rfl
      · exact absurd heq hne
    · rintro rfl
      exact ⟨Or.inl rfl, rfl⟩
  · next hkey =>
    rw [find?_eq_some_iff]
    constructor
    · rintro ⟨rfl | ⟨hb, -⟩, heq⟩
      · exact absurd heq hkey
      · exact ⟨hb, heq⟩
    · rintro ⟨hb, rfl⟩
      exact ⟨Or.inr ⟨hb, Ne.symm hkey⟩, rfl⟩

/-- Catalogs with the same names in the same order and the same definitions of them are the same. -/
theorem eq_of_find? (hnames : c.names = c'.names) (hfind : ∀ key, c.find? key = c'.find? key) :
    c = c' := by
  have hentries (c : Catalog α name) : c.entries.map some = c.names.map c.find? := by
    rw [names, List.map_map]
    exact List.map_congr_left fun a ha => (find?_eq_some_iff.2 ⟨ha, rfl⟩).symm
  have heq : c.entries.map some = c'.entries.map some := by
    rw [hentries, hentries, hnames, funext hfind]
  cases c
  cases c'
  simpa [List.map_inj_right] using heq

end Catalog

/-! ## Contents -/

namespace TypeBody

variable {body body' later : TypeBody} {parts : List TypeBody}

/-- Whether contents are those of some parts, one part after another. -/
structure IsJoined (body : TypeBody) (parts : List TypeBody) : Prop where
  interfaces : body.interfaces = parts.flatMap TypeBody.interfaces
  fields : body.fields = parts.flatMap TypeBody.fields
  members : body.members = parts.flatMap TypeBody.members
  values : body.values = parts.flatMap TypeBody.values
  inputFields : body.inputFields = parts.flatMap TypeBody.inputFields

theorem isJoined_singleton (body : TypeBody) : body.IsJoined [body] := by
  constructor <;> simp

theorem IsJoined.concat (hbody : body.IsJoined [body', later]) (h : body'.IsJoined parts) :
    body.IsJoined (parts ++ [later]) where
  interfaces := by simp [hbody.interfaces, h.interfaces]
  fields := by simp [hbody.fields, h.fields]
  members := by simp [hbody.members, h.members]
  values := by simp [hbody.values, h.values]
  inputFields := by simp [hbody.inputFields, h.inputFields]

/-- Contents of one kind are told by their parts. -/
theorem IsJoined.eq (h : body.IsJoined parts) (h' : body'.IsJoined parts)
    (hkind : body.kind = body'.kind) : body = body' := by
  have hinterfaces := h.interfaces.trans h'.interfaces.symm
  have hfields := h.fields.trans h'.fields.symm
  have hmembers := h.members.trans h'.members.symm
  have hvalues := h.values.trans h'.values.symm
  have hinputFields := h.inputFields.trans h'.inputFields.symm
  cases body <;> cases body' <;> cases hkind
  case object.object.refl => exact congrArg₂ TypeBody.object hinterfaces hfields
  case interface.interface.refl => exact congrArg₂ TypeBody.interface hinterfaces hfields
  case union.union.refl => exact congrArg TypeBody.union hmembers
  case inputObject.inputObject.refl => exact congrArg TypeBody.inputObject hinputFields
  case enum.enum.refl => exact congrArg TypeBody.enum hvalues
  case scalar.scalar.refl => rfl

@[simp]
theorem kind_extendedBy (body later : TypeBody) : (body.extendedBy later).kind = later.kind := by
  cases body <;> cases later <;> rfl

/-- Contents of one kind add up. -/
theorem isJoined_extendedBy (h : body.kind = later.kind) :
    (body.extendedBy later).IsJoined [body, later] := by
  cases body <;> cases later <;> cases h <;> constructor <;>
    simp [extendedBy, interfaces, fields, members, values, inputFields]

/-- Contents of another kind stand alone. -/
theorem extendedBy_of_kind_ne (h : body.kind ≠ later.kind) : body.extendedBy later = later := by
  cases body <;> cases later <;> first | rfl | exact absurd rfl h

theorem extendedBy_assoc (body : TypeBody) {b c : TypeBody} (h : b.kind = c.kind) :
    (body.extendedBy b).extendedBy c = body.extendedBy (b.extendedBy c) := by
  cases b <;> cases c <;> cases h <;> cases body <;> simp [extendedBy]

end TypeBody

/-! ## Types -/

attribute [ext] TypeDefinition

namespace TypeDefinition

variable {d first block : TypeDefinition} {blocks pieces : List TypeDefinition}

/-- Whether a type is what some blocks give together. -/
structure IsMergeOf (d : TypeDefinition) (blocks : List TypeDefinition) : Prop where
  /-- The first description is that of the type. -/
  description : d.description = blocks.findSome? TypeDefinition.description
  directives : d.directives = blocks.flatMap TypeDefinition.directives
  /-- The last block says of what kind the type is. -/
  kind : blocks.getLast?.map (fun last => last.body.kind) = some d.body.kind
  /-- The contents are those of the longest run of blocks of that kind at the end. -/
  body : d.body.IsJoined
    ((blocks.map TypeDefinition.body).rtakeWhile fun body => body.kind == d.body.kind)

/-- Whether some pieces of one kind have the contents of a type and its directives, in order. -/
structure IsSplitInto (d : TypeDefinition) (pieces : List TypeDefinition) : Prop where
  name : ∀ p ∈ pieces, p.name = d.name
  kind : ∀ p ∈ pieces, p.body.kind = d.body.kind
  description : d.description = pieces.findSome? TypeDefinition.description
  directives : d.directives = pieces.flatMap TypeDefinition.directives
  body : d.body.IsJoined (pieces.map TypeDefinition.body)

/-- What blocks come to, if there are any. -/
def merged : List TypeDefinition → Option TypeDefinition
  | [] => none
  | first :: later => some (later.foldl extendedBy first)

theorem merged_concat (blocks : List TypeDefinition) (block : TypeDefinition) :
    merged (blocks ++ [block]) = some ((merged blocks).elim block (extendedBy · block)) := by
  cases blocks with
  | nil => rfl
  | cons first later => simp [merged]

theorem isMergeOf_singleton (d : TypeDefinition) : d.IsMergeOf [d] where
  description := by cases h : d.description <;> simp [h]
  directives := by simp
  kind := rfl
  body := by
    rw [List.map_singleton, List.rtakeWhile_eq_self_iff.2 (by simp)]
    exact d.body.isJoined_singleton

/-- One more block adds to a type what it has. -/
theorem IsMergeOf.extendedBy (h : d.IsMergeOf blocks) (block : TypeDefinition) :
    (d.extendedBy block).IsMergeOf (blocks ++ [block]) where
  description := by
    rw [List.findSome?_append, ← h.description]
    cases hblock : block.description <;> simp [TypeDefinition.extendedBy, hblock]
  directives := by simp [TypeDefinition.extendedBy, h.directives]
  kind := by simp [TypeDefinition.extendedBy]
  body := by
    simp only [TypeDefinition.extendedBy, TypeBody.kind_extendedBy, List.map_append,
      List.map_singleton]
    rw [List.rtakeWhile_concat_pos _ _ _ (by simp)]
    by_cases hkind : d.body.kind = block.body.kind
    · rw [← hkind]
      exact (TypeBody.isJoined_extendedBy hkind).concat h.body
    · -- the last of the blocks before is of another kind
      obtain ⟨last, hlast, hlastKind⟩ := Option.map_eq_some_iff.1 h.kind
      obtain ⟨earlier, rfl⟩ := List.getLast?_eq_some_iff.1 hlast
      rw [TypeBody.extendedBy_of_kind_ne hkind, List.map_append, List.map_singleton,
        List.rtakeWhile_concat_neg _ _ _ (by simpa [hlastKind] using hkind)]
      exact block.body.isJoined_singleton

theorem isMergeOf_of_merged (h : merged blocks = some d) : d.IsMergeOf blocks := by
  induction blocks using List.reverseRecOn generalizing d with
  | nil => cases h
  | append_singleton blocks block ih =>
    rw [merged_concat] at h
    cases hmerged : merged blocks with
    | none =>
      obtain rfl : blocks = [] := by
        cases blocks with
        | nil => rfl
        | cons => cases hmerged
      cases h
      exact isMergeOf_singleton block
    | some earlier =>
      rw [hmerged] at h
      cases h
      exact (ih hmerged).extendedBy block

theorem extendedBy_assoc (d : TypeDefinition) {b c : TypeDefinition}
    (h : b.body.kind = c.body.kind) :
    (d.extendedBy b).extendedBy c = d.extendedBy (b.extendedBy c) := by
  simp only [extendedBy, TypeBody.extendedBy_assoc d.body h, List.append_assoc]
  cases d.description <;> rfl

theorem foldl_extendedBy (d : TypeDefinition) (h : ∀ p ∈ pieces, p.body.kind = first.body.kind) :
    pieces.foldl extendedBy (d.extendedBy first) =
      d.extendedBy (pieces.foldl extendedBy first) := by
  induction pieces generalizing first with
  | nil => rfl
  | cons p pieces ih =>
    have hp : first.body.kind = p.body.kind := (h p List.mem_cons_self).symm
    rw [List.foldl_cons, List.foldl_cons, extendedBy_assoc d hp]
    refine ih fun p' hp' => ?_
    rw [h p' (List.mem_cons_of_mem _ hp'), hp]
    exact (TypeBody.kind_extendedBy ..).symm

theorem name_foldl_extendedBy (first : TypeDefinition) (later : List TypeDefinition) :
    (later.foldl extendedBy first).name = first.name := by
  induction later generalizing first with
  | nil => rfl
  | cons block later ih => exact ih (first.extendedBy block)

/-- The pieces of a type come to the type. -/
theorem IsSplitInto.foldl_eq (h : d.IsSplitInto (first :: pieces)) :
    pieces.foldl extendedBy first = d := by
  have hmerge : (pieces.foldl extendedBy first).IsMergeOf (first :: pieces) :=
    isMergeOf_of_merged rfl
  have hkind : (pieces.foldl extendedBy first).body.kind = d.body.kind := by
    obtain ⟨last, hlast, hlastKind⟩ := Option.map_eq_some_iff.1 hmerge.kind
    rw [← hlastKind]
    exact h.kind last (List.mem_of_getLast? hlast)
  have hbody := hmerge.body
  rw [List.rtakeWhile_eq_self_iff.2 (by simpa [hkind] using h.kind)] at hbody
  refine TypeDefinition.ext ?_ ?_ ?_ (hbody.eq h.body hkind)
  · rw [name_foldl_extendedBy, h.name first List.mem_cons_self]
  · rw [hmerge.description, h.description]
  · rw [hmerge.directives, h.directives]

/-- The pieces of a type stand for the type among other blocks. -/
theorem IsSplitInto.merged_append (h : d.IsSplitInto (first :: pieces))
    (before after : List TypeDefinition) :
    merged (before ++ first :: (pieces ++ after)) = merged (before ++ d :: after) := by
  cases before with
  | nil => simp [merged, h.foldl_eq]
  | cons block before =>
    have hkind (p : TypeDefinition) (hp : p ∈ pieces) : p.body.kind = first.body.kind :=
      (h.kind p (List.mem_cons_of_mem _ hp)).trans (h.kind first List.mem_cons_self).symm
    simp [merged, foldl_extendedBy _ hkind, h.foldl_eq]

end TypeDefinition

/-! ## Documents -/

namespace Block

/-- The type to which a block belongs. -/
def type? : Block → Option TypeDefinition
  | type d => some d
  | _ => none

/-- The directive that a block defines. -/
def directive? : Block → Option DirectiveDefinition
  | directive d => some d
  | _ => none

/-- Whether a block does not belong to the type of a name. -/
def isOther (name : String) (block : Block) : Bool :=
  block.type?.all fun d => d.name != name

theorem filterMap_type?_isOther (name : String) (blocks : List Block) :
    (blocks.filter (isOther name)).filterMap type? =
      (blocks.filterMap type?).filter fun d => d.name != name := by
  rw [List.filterMap_filter, List.filter_filterMap]
  refine List.filterMap_congr fun block _ => ?_
  cases block with
  | type d => simp [isOther, type?, Option.filter]
  | directive d => rfl
  | roots => rfl

theorem filterMap_directive?_isOther (name : String) (blocks : List Block) :
    (blocks.filter (isOther name)).filterMap directive? =
      blocks.filterMap directive? := by
  rw [List.filterMap_filter]
  refine List.filterMap_congr fun block _ => ?_
  cases block with
  | type d => exact ite_self _
  | directive d => rfl
  | roots => rfl

end Block

namespace TypeSystem

variable {ts : TypeSystem} {name : String}

/-! ### One block -/

theorem type?_extendType (ts : TypeSystem) (d : TypeDefinition) (name : String) :
    (ts.extendType d).type? name =
      if d.name = name then some ((ts.type? name).elim d (TypeDefinition.extendedBy · d))
      else ts.type? name := by
  unfold extendType
  cases hd : ts.type? d.name with
  | none =>
    refine (Catalog.find?_put ..).trans (ite_congr rfl (fun hname => ?_) fun _ => rfl)
    rw [← hname, hd]
    rfl
  | some earlier =>
    have hearlier : earlier.name = d.name := (Catalog.find?_eq_some_iff.1 hd).2
    refine (Catalog.find?_put ..).trans
      (ite_congr (by rw [← hearlier]; rfl) (fun hname => ?_) fun _ => rfl)
    rw [← hname, hd]
    rfl

theorem names_extendType (ts : TypeSystem) (d : TypeDefinition) :
    (ts.extendType d).types.names =
      if d.name ∈ ts.types.names then ts.types.names else ts.types.names ++ [d.name] := by
  unfold extendType
  cases hd : ts.type? d.name with
  | none => exact Catalog.names_put ..
  | some earlier =>
    have hearlier : earlier.name = d.name := (Catalog.find?_eq_some_iff.1 hd).2
    rw [← hearlier]
    exact Catalog.names_put ..

theorem directives_extendType (ts : TypeSystem) (d : TypeDefinition) :
    (ts.extendType d).directives = ts.directives := by
  unfold extendType
  split <;> rfl

/-! ### All blocks -/

/-- The blocks of the type of a name, in order. -/
def blocksOf (name : String) (types : List TypeDefinition) : List TypeDefinition :=
  types.filter fun d => d.name == name

/-- Whether a type system is what the blocks of types and the definitions of directives come to. -/
structure ComesOf (ts : TypeSystem) (types : List TypeDefinition)
    (directives : List DirectiveDefinition) : Prop where
  /-- The types stand in the order of their first blocks. -/
  typeNames : ts.types.names = (types.map TypeDefinition.name).eraseDups
  type? : ∀ name, ts.type? name = TypeDefinition.merged (blocksOf name types)
  /-- The directives stand in the order of their first definitions. -/
  directiveNames : ts.directives.names = (directives.map DirectiveDefinition.name).eraseDups
  /-- The last definition of a directive stands. -/
  directive? : ∀ name, ts.directive? name = directives.reverse.find? fun d => d.name == name

namespace ComesOf

variable {types : List TypeDefinition} {directives : List DirectiveDefinition}

theorem extendType (h : ts.ComesOf types directives) (d : TypeDefinition) :
    (ts.extendType d).ComesOf (types ++ [d]) directives where
  typeNames := by
    rw [names_extendType, List.map_append, List.map_singleton, eraseDups_concat]
    simp only [h.typeNames, List.mem_eraseDups]
  type? name := by
    rw [type?_extendType, h.type?, blocksOf, blocksOf, List.filter_append]
    by_cases hname : d.name = name
    · rw [if_pos hname, List.filter_cons_of_pos (by simpa using hname), List.filter_nil,
        TypeDefinition.merged_concat]
    · rw [if_neg hname, List.filter_cons_of_neg (by simpa using hname), List.filter_nil,
        List.append_nil]
  directiveNames := by
    rw [directives_extendType]
    exact h.directiveNames
  directive? name := by
    rw [← h.directive?, TypeSystem.directive?, directives_extendType]
    rfl

theorem defineDirective (h : ts.ComesOf types directives) (d : DirectiveDefinition) :
    (ts.defineDirective d).ComesOf types (directives ++ [d]) where
  typeNames := h.typeNames
  type? := h.type?
  directiveNames := by
    refine (Catalog.names_put ..).trans ?_
    rw [List.map_append, List.map_singleton, eraseDups_concat]
    simp only [h.directiveNames, List.mem_eraseDups]
  directive? name := by
    refine (Catalog.find?_put ..).trans ?_
    rw [List.reverse_append, List.reverse_singleton, List.singleton_append]
    by_cases hname : d.name = name
    · rw [if_pos hname, List.find?_cons_of_pos (by simpa using hname)]
    · rw [if_neg hname, List.find?_cons_of_neg (by simpa using hname)]
      exact h.directive? name

end ComesOf

theorem comesOf_ofBlocks (blocks : List Block) : (ofBlocks blocks).ComesOf
    (blocks.filterMap Block.type?) (blocks.filterMap Block.directive?) := by
  induction blocks using List.reverseRecOn with
  | nil => exact ⟨rfl, fun _ => rfl, rfl, fun _ => rfl⟩
  | append_singleton blocks block ih =>
    rw [ofBlocks, List.foldl_append, List.filterMap_append, List.filterMap_append]
    cases block with
    | type d =>
      have hrest : [Block.type d].filterMap Block.directive? = [] := rfl
      rw [hrest, List.append_nil]
      exact ih.extendType d
    | directive d =>
      have hrest : [Block.directive d].filterMap Block.type? = [] := rfl
      rw [hrest, List.append_nil]
      exact ih.defineDirective d
    | roots =>
      have htypes : [Block.roots].filterMap Block.type? = [] := rfl
      have hdirectives : [Block.roots].filterMap Block.directive? = [] := rfl
      rw [htypes, hdirectives, List.append_nil, List.append_nil]
      exact ih

/-- A type is what all its blocks give together. -/
theorem isMergeOf_of_mem {blocks : List Block} {d : TypeDefinition}
    (hd : d ∈ (ofBlocks blocks).types.entries) :
    d.IsMergeOf (blocksOf d.name (blocks.filterMap Block.type?)) := by
  refine TypeDefinition.isMergeOf_of_merged ?_
  rw [← (comesOf_ofBlocks blocks).type?]
  exact Catalog.find?_eq_some_iff.2 ⟨hd, rfl⟩

/-! ### Pieces -/

variable {ts' : TypeSystem} {first d : TypeDefinition} {before middle after : List TypeDefinition}
  {directives : List DirectiveDefinition}

/-- Type systems are the same if their types and directives are named in one order and come to the
same. -/
theorem eq_of_find? (htypeNames : ts.types.names = ts'.types.names)
    (htype : ∀ name, ts.type? name = ts'.type? name)
    (hdirectiveNames : ts.directives.names = ts'.directives.names)
    (hdirective : ∀ name, ts.directive? name = ts'.directive? name) : ts = ts' := by
  cases ts
  cases ts'
  exact congrArg₂ TypeSystem.mk (Catalog.eq_of_find? htypeNames htype)
    (Catalog.eq_of_find? hdirectiveNames hdirective)

/-- A type with its pieces among other blocks comes to the same in pieces and at once. -/
theorem ComesOf.eq_of_split (hpieces : d.IsSplitInto (first :: blocksOf d.name middle))
    (h : ts.ComesOf (before ++ first :: (middle ++ after)) directives)
    (h' : ts'.ComesOf
      (before ++ d :: ((middle.filter fun other => other.name != d.name) ++ after)) directives) :
    ts = ts' := by
  have hname : first.name = d.name := hpieces.name first List.mem_cons_self
  refine eq_of_find? ?_ (fun name => ?_) (h.directiveNames.trans h'.directiveNames.symm)
    fun name => (h.directive? name).trans (h'.directive? name).symm
  · have hnames := eraseDups_append_filter
      (List.mem_append_right (before.map TypeDefinition.name) (List.mem_singleton_self d.name))
      (middle.map TypeDefinition.name) (after.map TypeDefinition.name)
    rw [h.typeNames, h'.typeNames]
    simpa [hname, List.filter_map, Function.comp_def] using hnames.symm
  · rw [h.type?, h'.type?]
    by_cases hother : d.name = name
    · have hmiddle : (middle.filter fun other => other.name != d.name).filter
          (fun other => other.name == d.name) = [] := by simp [List.filter_filter]
      subst hother
      simp only [blocksOf, List.filter_append, List.filter_cons, hname, beq_self_eq_true, if_true,
        hmiddle, List.nil_append]
      exact hpieces.merged_append _ _
    · have hmiddle : (middle.filter fun other => other.name != d.name).filter
          (fun other => other.name == name) = middle.filter fun other => other.name == name := by
        rw [List.filter_filter]
        refine List.filter_congr fun other _ => ?_
        by_cases hsame : other.name = name
        · simp [hsame, Ne.symm hother]
        · simp [hsame]
      simp only [blocksOf, List.filter_append, List.filter_cons, hname, beq_false_of_ne hother,
        Bool.false_eq_true, if_false, hmiddle]

end TypeSystem

/-- However a document gives its types, they stand in the order of their first blocks, each is what
all its blocks give together, and the last definition of a directive stands where the first one
stood. So a type may as well be given in pieces, with other blocks between them. -/
theorem blocks_come_to_what_they_give_together :
    (∀ blocks, (TypeSystem.ofBlocks blocks).types.names =
        ((blocks.filterMap Block.type?).map TypeDefinition.name).eraseDups ∧
      (∀ d ∈ (TypeSystem.ofBlocks blocks).types.entries,
        d.IsMergeOf (TypeSystem.blocksOf d.name (blocks.filterMap Block.type?))) ∧
      (TypeSystem.ofBlocks blocks).directives.names =
        ((blocks.filterMap Block.directive?).map DirectiveDefinition.name).eraseDups ∧
      ∀ name, (TypeSystem.ofBlocks blocks).directive? name =
        (blocks.filterMap Block.directive?).reverse.find? fun d => d.name == name) ∧
    ∀ before middle after first d,
      TypeDefinition.IsSplitInto d
        (first :: TypeSystem.blocksOf d.name (middle.filterMap Block.type?)) →
      TypeSystem.ofBlocks (before ++ .type first :: (middle ++ after)) =
        TypeSystem.ofBlocks (before ++ .type d :: (middle.filter (Block.isOther d.name) ++ after)) := by
  constructor
  · intro blocks
    have hcomes := TypeSystem.comesOf_ofBlocks blocks
    exact ⟨hcomes.typeNames, fun d => TypeSystem.isMergeOf_of_mem, hcomes.directiveNames,
      hcomes.directive?⟩
  · intro before middle after first d hpieces
    have hsplit := TypeSystem.comesOf_ofBlocks (before ++ .type first :: (middle ++ after))
    have hwhole := TypeSystem.comesOf_ofBlocks
      (before ++ .type d :: (middle.filter (Block.isOther d.name) ++ after))
    simp only [List.filterMap_append, List.filterMap_cons, Block.type?, Block.directive?,
      Block.filterMap_type?_isOther, Block.filterMap_directive?_isOther] at hsplit hwhole
    exact hsplit.eq_of_split hpieces hwhole

theorem blocks_come_to_what_they_give_together_of_an_object_that_becomes_an_input_object :
    let p : AppliedDirective := ⟨"p", []⟩
    let q : AppliedDirective := ⟨"q", []⟩
    let x : Field := ⟨"x", .named "Int", [], none, []⟩
    let y : Field := ⟨"y", .named "Int", [], none, []⟩
    let k : InputValue := ⟨"k", .named "Int", none, none, []⟩
    let l : InputValue := ⟨"l", .named "Int", none, none, []⟩
    let once : DirectiveDefinition := ⟨"p", [], ["OBJECT"], false, none⟩
    let often : DirectiveDefinition := ⟨"p", [], ["OBJECT"], true, none⟩
    let earlier : List Block := [.type ⟨"A", some "a", [p], .object ["B"] [x]⟩, .directive once]
    let later : List Block := [.type ⟨"A", none, [q], .inputObject [k]⟩, .directive often,
      .type ⟨"A", some "late", [p], .inputObject [l]⟩]
    let first : TypeDefinition := ⟨"B", none, [p], .interface [] [x]⟩
    let middle : List Block := [.roots, .type ⟨"C", none, [], .scalar⟩,
      .type ⟨"B", some "b", [q], .interface ["C"] [y]⟩]
    let whole : TypeDefinition := ⟨"B", some "b", [p, q], .interface ["C"] [x, y]⟩
    let a : TypeDefinition := ⟨"A", some "a", [p, q, p], .inputObject [k, l]⟩
    let blocks := earlier ++ .type first :: (middle ++ later)
    a ∈ (TypeSystem.ofBlocks blocks).types.entries ∧
      a.IsMergeOf [⟨"A", some "a", [p], .object ["B"] [x]⟩, ⟨"A", none, [q], .inputObject [k]⟩,
        ⟨"A", some "late", [p], .inputObject [l]⟩] ∧
      (TypeSystem.ofBlocks blocks).types.names = ["A", "B", "C"] ∧
      (TypeSystem.ofBlocks blocks).directive? "p" = some often ∧
      whole.IsSplitInto (first :: TypeSystem.blocksOf whole.name (middle.filterMap Block.type?)) ∧
      TypeSystem.ofBlocks blocks = TypeSystem.ofBlocks
        (earlier ++ .type whole :: ([.roots, .type ⟨"C", none, [], .scalar⟩] ++ later)) := by
  intro p q x y k l once often earlier later first middle whole a blocks
  obtain ⟨hmerges, hsplits⟩ := blocks_come_to_what_they_give_together
  obtain ⟨hnames, htypes, -, hdirective⟩ := hmerges blocks
  have ha : a ∈ (TypeSystem.ofBlocks blocks).types.entries := by decide +kernel
  have hmerge := htypes a ha
  have hblocks : TypeSystem.blocksOf a.name (blocks.filterMap Block.type?) =
      [⟨"A", some "a", [p], .object ["B"] [x]⟩, ⟨"A", none, [q], .inputObject [k]⟩,
        ⟨"A", some "late", [p], .inputObject [l]⟩] := by decide +kernel
  rw [hblocks] at hmerge
  have hpieces : whole.IsSplitInto
      (first :: TypeSystem.blocksOf whole.name (middle.filterMap Block.type?)) :=
    ⟨by decide, by decide, rfl, rfl, ⟨rfl, rfl, rfl, rfl, rfl⟩⟩
  exact ⟨ha, hmerge, hnames.trans (by decide +kernel), (hdirective "p").trans (by decide +kernel),
    hpieces, hsplits earlier middle later first whole hpieces⟩

end SchemaDelta
