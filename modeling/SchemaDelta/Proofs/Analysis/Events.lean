import SchemaDelta.Proofs.Analysis.Failures
import SchemaDelta.Proofs.Analysis.Gathering

/-!
Every event is true: what is told as added or removed is on one side only, and what is told as
revised was so, whether or not the search was given up.
-/

namespace SchemaDelta

/-! ## Lists side by side -/

section Forall₂

variable {α β γ δ : Type} {R : α → β → Prop} {as : List α} {bs : List β}

/-- What is picked from one list comes from different elements of the other. -/
theorem exists_sublist_of_forall₂ {S : γ → δ → Prop} {source? : α → Option δ}
    {pick? : β → Option γ} (h : List.Forall₂ R as bs)
    (hpick : ∀ a b c, R a b → pick? b = some c → ∃ d, source? a = some d ∧ S c d) :
    ∃ ds, ds.Sublist (as.filterMap source?) ∧ List.Forall₂ S (bs.filterMap pick?) ds := by
  induction h with
  | nil => exact ⟨[], .slnil, .nil⟩
  | @cons a b as bs hR h ih =>
    obtain ⟨ds, hsublist, hds⟩ := ih
    cases hb : pick? b with
    | none =>
      refine ⟨ds, hsublist.trans ?_, by rwa [List.filterMap_cons_none hb]⟩
      exact (List.sublist_cons_self a as).filterMap source?
    | some c =>
      obtain ⟨d, hd, hS⟩ := hpick a b c hR hb
      rw [List.filterMap_cons_some hb, List.filterMap_cons_some hd]
      exact ⟨d :: ds, hsublist.cons_cons d, .cons hS hds⟩

theorem nodup_of_forall₂ (h : List.Forall₂ R as bs) (hbs : bs.Nodup)
    (hR : ∀ a b b', R a b → R a b' → b = b') : as.Nodup := by
  induction h with
  | nil => exact .nil
  | @cons a b as bs hab h ih =>
    obtain ⟨hb, hbs⟩ := List.nodup_cons.1 hbs
    refine List.nodup_cons.2 ⟨fun ha => ?_, ih hbs⟩
    obtain ⟨b', hb', hab'⟩ := exists_mem_right_of_forall₂ h ha
    exact hb (hR a b b' hab hab' ▸ hb')

end Forall₂

/-! ## Steps of one kind -/

/-- The side that a side is compared with. -/
def Side.other : Side → Side
  | old => new
  | new => old

namespace Edit

/-- The vertex that a step inserts. -/
def inserted? : Edit → Option Nat
  | insertVertex target => some target
  | _ => none

/-- The vertex that a step deletes. -/
def deleted? : Edit → Option Nat
  | deleteVertex source => some source
  | _ => none

/-- The vertex of a side that a step brings or takes away. -/
def at? : Side → Edit → Option Nat
  | .old => deleted?
  | .new => inserted?

/-- The vertices of which a step changes one into the other. -/
def changed? : Edit → Option (Nat × Nat)
  | changeVertex source target => some (source, target)
  | _ => none

end Edit

theorem mem_filterMap_at?_iff {operations : List Edit} {side : Side} {id : Nat} :
    id ∈ operations.filterMap (Edit.at? side) ↔ comesOrGoes operations side id = true := by
  rw [List.mem_filterMap]
  cases side with
  | old =>
    rw [Comparison.comesOrGoes_old]
    refine ⟨?_, fun hmem => ⟨_, hmem, rfl⟩⟩
    rintro ⟨operation, hmem, heq⟩
    cases operation <;> cases heq
    exact hmem
  | new =>
    rw [Comparison.comesOrGoes_new]
    refine ⟨?_, fun hmem => ⟨_, hmem, rfl⟩⟩
    rintro ⟨operation, hmem, heq⟩
    cases operation <;> cases heq
    exact hmem

/-- Steps that use nothing twice are about different pieces. -/
theorem nodup_pieces_of_uses {α : Type} {operations : List Edit}
    (h : (operations.flatMap Edit.uses).Nodup) (pick? : Edit → Option α) (piece : α → Piece)
    (hpick : ∀ operation a, pick? operation = some a → piece a ∈ operation.uses) :
    ((operations.filterMap pick?).map piece).Nodup := by
  induction operations with
  | nil => exact .nil
  | cons operation operations ih =>
    rw [List.flatMap_cons, List.nodup_append] at h
    obtain ⟨-, hrest, hdisjoint⟩ := h
    cases ha : pick? operation with
    | none =>
      rw [List.filterMap_cons_none ha]
      exact ih hrest
    | some a =>
      rw [List.filterMap_cons_some ha, List.map_cons, List.nodup_cons]
      refine ⟨fun hmem => ?_, ih hrest⟩
      -- a later step about the same piece would use it again
      obtain ⟨b, hb, heq⟩ := List.mem_map.1 hmem
      obtain ⟨other, hother, hpicked⟩ := List.mem_filterMap.1 hb
      refine hdisjoint _ (hpick operation a ha) (piece b) ?_ heq.symm
      exact List.mem_flatMap.2 ⟨other, hother, hpick other b hpicked⟩

section Account

variable {operations : List Edit} (h : (operations.flatMap Edit.uses).Nodup)

include h

theorem nodup_inserted : (operations.filterMap Edit.inserted?).Nodup := by
  refine .of_map _ (nodup_pieces_of_uses h Edit.inserted? .newVertex fun operation target heq => ?_)
  cases operation <;> cases heq
  exact List.mem_singleton_self _

theorem nodup_deleted : (operations.filterMap Edit.deleted?).Nodup := by
  refine .of_map _ (nodup_pieces_of_uses h Edit.deleted? .oldVertex fun operation source heq => ?_)
  cases operation <;> cases heq
  exact List.mem_singleton_self _

theorem nodup_at? (side : Side) : (operations.filterMap (Edit.at? side)).Nodup := by
  cases side
  · exact nodup_deleted h
  · exact nodup_inserted h

theorem changed_isOneToOne : Matching.IsOneToOne ⟨operations.filterMap Edit.changed?⟩ where
  sources := by
    refine .of_map Piece.oldVertex ?_
    rw [List.map_map]
    refine nodup_pieces_of_uses h Edit.changed? _ fun operation pair heq => ?_
    cases operation <;> cases heq
    exact List.mem_cons_self
  targets := by
    refine .of_map Piece.newVertex ?_
    rw [List.map_map]
    refine nodup_pieces_of_uses h Edit.changed? _ fun operation pair heq => ?_
    cases operation <;> cases heq
    exact List.mem_cons_of_mem _ (List.mem_singleton_self _)

end Account

/-! ## Events of one kind -/

namespace Change

/-- What an event tells to be added. -/
def added? : Change → Option Subject
  | added subject => some subject
  | _ => none

/-- What an event tells to be removed. -/
def removed? : Change → Option Subject
  | removed subject => some subject
  | _ => none

/-- What an event tells to be revised, and how. -/
def revised? (change : Change) : Option (Subject × List Revision) :=
  if change.revisions.isEmpty then none else some (change.subject, change.revisions)

end Change

theorem Change.revised?_eq_some_iff {change : Change} {subject : Subject}
    {details : List Revision} : change.revised? = some (subject, details) ↔
      change.subject = subject ∧ change.revisions = details ∧ details ≠ [] := by
  unfold revised?
  split
  · next h =>
    rw [List.isEmpty_iff] at h
    simp [h]
  · next h =>
    rw [List.isEmpty_iff] at h
    constructor
    · intro heq
      cases heq
      exact ⟨rfl, rfl, h⟩
    · rintro ⟨rfl, rfl, -⟩
      rfl

/-- Something of an object as an event by itself. -/
def objectEvent (entry : String × List ObjectDetail) : Change :=
  .objectChanged entry.1 entry.2

/-- Something of an interface as an event by itself. -/
def interfaceEvent (entry : String × List Revision) : Change :=
  .definitionChanged .interface entry.1 entry.2

theorem revised?_objectEvent (entry : String × List ObjectDetail) :
    (objectEvent entry).revised? =
      (picked? ObjectDetail.revision? entry).map (Prod.map .object id) := by
  have hrevisions : (objectEvent entry).revisions = entry.2.filterMap ObjectDetail.revision? := rfl
  unfold Change.revised? picked?
  rw [hrevisions]
  split <;> rfl

theorem revised?_interfaceEvent (entry : String × List Revision) :
    (interfaceEvent entry).revised? =
      (picked? some entry).map (Prod.map (.definition .interface) id) := by
  have hrevisions : (interfaceEvent entry).revisions = entry.2 := rfl
  unfold Change.revised? picked?
  rw [hrevisions, List.filterMap_some]
  split <;> rfl

/-- A finding as an event by itself. -/
def Finding.event? : Finding → Option Change
  | change event => some event
  | object name details => some (objectEvent (name, details))
  | interface name details => some (interfaceEvent (name, details))
  | nothing | unclassified _ => none

theorem Finding.event?_of_change? {finding : Finding} {event : Change}
    (h : finding.change? = some event) : finding.event? = some event := by
  cases finding <;> first | exact h | cases h

theorem changes_ofFindings (findings : List Finding) : (Analysis.ofFindings findings).changes =
    findings.filterMap Finding.change? ++
      (gathered (findings.filterMap Finding.object?)).map objectEvent ++
      (gathered (findings.filterMap Finding.interface?)).map interfaceEvent :=
  rfl

/-- Details that are put together tell of nothing but objects and interfaces that changed. -/
theorem filterMap_changes {α : Type} (findings : List Finding) {pick? : Change → Option α}
    (hobject : ∀ entry, pick? (objectEvent entry) = none)
    (hinterface : ∀ entry, pick? (interfaceEvent entry) = none) :
    (Analysis.ofFindings findings).changes.filterMap pick? =
      findings.filterMap fun finding => finding.change?.bind pick? := by
  have hobjects (entries : List (String × List ObjectDetail)) :
      (entries.map objectEvent).filterMap pick? = [] := by
    rw [List.filterMap_map]
    exact List.filterMap_eq_nil_iff.2 fun entry _ => hobject entry
  have hinterfaces (entries : List (String × List Revision)) :
      (entries.map interfaceEvent).filterMap pick? = [] := by
    rw [List.filterMap_map]
    exact List.filterMap_eq_nil_iff.2 fun entry _ => hinterface entry
  rw [changes_ofFindings, List.filterMap_append, List.filterMap_append, hobjects, hinterfaces,
    List.append_nil, List.append_nil, List.filterMap_filterMap]

theorem filterMap_event?_perm (findings : List Finding) :
    (findings.filterMap Finding.event?).Perm (findings.filterMap Finding.change? ++
      (findings.filterMap Finding.object?).map objectEvent ++
      (findings.filterMap Finding.interface?).map interfaceEvent) := by
  induction findings with
  | nil => exact .refl _
  | cons finding findings ih =>
    cases finding with
    | nothing => exact ih
    | unclassified record => exact ih
    | change event => exact ih.cons event
    | object name details =>
      refine (ih.cons _).trans ?_
      simp only [List.append_assoc]
      exact List.perm_middle.symm
    | interface name details => exact (ih.cons _).trans List.perm_middle.symm

/-- Putting details together changes nothing about revisions if those of one subject come from one
finding. -/
theorem revised?_gathered_perm {δ : Type} {pick? : δ → Option Revision}
    {event : String × List δ → Change} {subject : String → Subject}
    (hevent : ∀ entry, (event entry).revised? = (picked? pick? entry).map (Prod.map subject id))
    {entries : List (String × List δ)}
    (h : (((entries.map event).filterMap Change.revised?).map (·.1)).Nodup) :
    (((gathered entries).map event).filterMap Change.revised?).Perm
      ((entries.map event).filterMap Change.revised?) := by
  have hpicked (entries : List (String × List δ)) :
      (entries.map event).filterMap Change.revised? =
        (entries.filterMap (picked? pick?)).map (Prod.map subject id) := by
    rw [List.filterMap_map, List.map_filterMap]
    exact List.filterMap_congr fun entry _ => hevent entry
  rw [hpicked, hpicked]
  refine (filterMap_gathered_perm pick? ?_).map _
  rw [hpicked, List.map_map] at h
  exact .of_map subject (by rwa [List.map_map])

theorem revised?_changes_perm {findings : List Finding}
    (hobjects : ((((findings.filterMap Finding.object?).map objectEvent).filterMap
      Change.revised?).map (·.1)).Nodup)
    (hinterfaces : ((((findings.filterMap Finding.interface?).map interfaceEvent).filterMap
      Change.revised?).map (·.1)).Nodup) :
    ((Analysis.ofFindings findings).changes.filterMap Change.revised?).Perm
      ((findings.filterMap Finding.event?).filterMap Change.revised?) := by
  -- putting details together concerns objects and interfaces, each by themselves
  refine List.Perm.trans ?_ ((filterMap_event?_perm findings).symm.filterMap _)
  rw [changes_ofFindings]
  simp only [List.filterMap_append]
  exact ((revised?_gathered_perm revised?_objectEvent hobjects).append_left _).append
    (revised?_gathered_perm revised?_interfaceEvent hinterfaces)

/-! ## What events come from -/

/-- Whether a subject tells a vertex of a graph whose place is not in another graph. -/
def IsOnlyIn (g other : Graph) (subject : Subject) (id : Nat) : Prop :=
  g.IsSubject id subject ∧ ∃ v, g.vertex? id = some v ∧ v.place ∉ other.places

/-- Whether details tell of a subject how an old vertex became a new one of its kind, neither of
them a built-in scalar. -/
def IsRevision (old new : Graph) (told : Subject × List Revision) (pair : Nat × Nat) : Prop :=
  ∃ v w, old.vertex? pair.1 = some v ∧ new.vertex? pair.2 = some w ∧ v.kind = w.kind ∧
    v.isBuiltIn = false ∧ w.isBuiltIn = false ∧ new.IsSubject pair.2 told.1 ∧
      AreRevisions told.2 v w

namespace Comparison

variable {c : Comparison} {m kept : Matching} {operations : List Edit} {findings : List Finding}
  {operation : Edit} {finding : Finding}

theorem exists_event?_revisionFinding (details : List Revision) (subject : Subject) :
    ∃ event, (revisionFinding details subject).event? = some event ∧ event.subject = subject ∧
      event.revisions = details := by
  cases subject with
  | object name =>
    refine ⟨_, rfl, rfl, ?_⟩
    simp [objectEvent, Change.revisions, List.filterMap_map, Function.comp_def,
      ObjectDetail.revision?]
  | definition kind name => cases kind <;> exact ⟨_, rfl, rfl, rfl⟩
  | part kind name owner => exact ⟨_, rfl, rfl, rfl⟩

theorem change?_revisionFinding_bind {α : Type} (details : List Revision) (subject : Subject)
    {pick? : Change → Option α} (hdefinition : ∀ kind name details,
      pick? (.definitionChanged kind name details) = none)
    (hpart : ∀ kind name owner details, pick? (.partChanged kind name owner details) = none) :
    (revisionFinding details subject).change?.bind pick? = none := by
  cases subject with
  | object name => rfl
  | definition kind name =>
    cases kind with
    | interface => rfl
    | _ => exact hdefinition _ name details
  | part kind name owner => exact hpart kind name owner details

theorem Tells.exists_inserted (h : c.Tells operations operation finding) {subject : Subject}
    (hadded : finding.change?.bind Change.added? = some subject) : ∃ target v,
      operation = .insertVertex target ∧ c.newGraph.vertex? target = some v ∧
        v.isBuiltIn = false ∧ c.newGraph.IsSubject target subject := by
  cases h with
  | inserted hv hbuiltIn hcovered hsubject =>
    cases hadded
    exact ⟨_, _, rfl, hv, hbuiltIn, hsubject⟩
  | revised hv hw hold hnew hrevised hsubject =>
    rw [change?_revisionFinding_bind _ _ (fun _ _ _ => rfl) fun _ _ _ _ => rfl] at hadded
    cases hadded
  | _ => cases hadded

theorem Tells.exists_deleted (h : c.Tells operations operation finding) {subject : Subject}
    (hremoved : finding.change?.bind Change.removed? = some subject) : ∃ source v,
      operation = .deleteVertex source ∧ c.oldGraph.vertex? source = some v ∧
        v.isBuiltIn = false ∧ c.oldGraph.IsSubject source subject := by
  cases h with
  | deleted hv hbuiltIn hcovered hsubject =>
    cases hremoved
    exact ⟨_, _, rfl, hv, hbuiltIn, hsubject⟩
  | revised hv hw hold hnew hrevised hsubject =>
    rw [change?_revisionFinding_bind _ _ (fun _ _ _ => rfl) fun _ _ _ _ => rfl] at hremoved
    cases hremoved
  | _ => cases hremoved

/-- What is told as revised is a vertex that is changed. -/
theorem Tells.exists_changed (h : c.Tells operations operation finding) {event : Change}
    (hevent : finding.event? = some event) {subject : Subject} {details : List Revision}
    (hrevised : event.revised? = some (subject, details)) : ∃ source target v w,
      operation = .changeVertex source target ∧ c.oldGraph.vertex? source = some v ∧
        c.newGraph.vertex? target = some w ∧ v.isBuiltIn = false ∧ w.isBuiltIn = false ∧
        c.newGraph.IsSubject target subject ∧ details = revisions v w := by
  cases h with
  | revised hv hw hold hnew hne hsubject =>
    rename_i s
    obtain ⟨event', hevent', rfl, hdetails⟩ := exists_event?_revisionFinding _ s
    cases hevent.symm.trans hevent'
    obtain ⟨rfl, rfl, -⟩ := Change.revised?_eq_some_iff.1 hrevised
    exact ⟨_, _, _, _, rfl, hv, hw, hold, hnew, hsubject, hdetails⟩
  | inserted | deleted | gainedInterface =>
    -- what is told has no revisions
    cases hevent
    cases hrevised
  | _ => cases hevent

/-- Whether a vertex that comes or goes is told of. -/
def isTold (c : Comparison) (operations : List Edit) (side : Side) (id : Nat) : Bool :=
  !((c.graph side).vertex? id).any Vertex.isBuiltIn && !c.isCovered operations side id

theorem isTold_eq (side : Side) {id : Nat} {v : Vertex} (hv : (c.graph side).vertex? id = some v) :
    c.isTold operations side id = (!v.isBuiltIn && !c.isCovered operations side id) := by
  rw [isTold, hv]
  rfl

namespace IsTelling

variable (h : c.IsTelling m kept operations findings)

include h

theorem isOnlyIn_of_inserted {target : Nat} {v : Vertex} {subject : Subject}
    (hmem : .insertVertex target ∈ operations) (hv : c.newGraph.vertex? target = some v)
    (hsubject : c.newGraph.IsSubject target subject) :
    IsOnlyIn c.newGraph c.oldGraph subject target := by
  refine ⟨hsubject, v, hv, fun hplace => ?_⟩
  obtain ⟨w, hw, heq⟩ := List.mem_map.1 hplace
  obtain ⟨source, hsource⟩ := List.mem_iff_getElem?.1 hw
  -- two vertices at one place are matched
  exact ((h.account.insertVertex_mem_iff target).1 hmem).2 source
    (h.correspondence.places hsource hv heq)

theorem isOnlyIn_of_deleted {source : Nat} {v : Vertex} {subject : Subject}
    (hmem : .deleteVertex source ∈ operations) (hv : c.oldGraph.vertex? source = some v)
    (hsubject : c.oldGraph.IsSubject source subject) :
    IsOnlyIn c.oldGraph c.newGraph subject source := by
  refine ⟨hsubject, v, hv, fun hplace => ?_⟩
  obtain ⟨w, hw, heq⟩ := List.mem_map.1 hplace
  obtain ⟨target, htarget⟩ := List.mem_iff_getElem?.1 hw
  exact ((h.account.deleteVertex_mem_iff source).1 hmem).2 target
    (h.correspondence.places hv htarget heq.symm)

theorem tells_mem : List.Forall₂ (fun operation finding =>
    operation ∈ operations ∧ c.Tells operations operation finding) operations findings :=
  (List.forall₂_and_left _ _).2 ⟨fun _ => id, h.tells⟩

/-- What is told as added is new, and nothing is told twice. -/
theorem exists_added : ∃ targets : List Nat, targets.Nodup ∧
    List.Forall₂ (IsOnlyIn c.newGraph c.oldGraph)
      ((Analysis.ofFindings findings).changes.filterMap Change.added?) targets := by
  have hinserted (operation : Edit) (finding : Finding) (subject : Subject)
      (htells : operation ∈ operations ∧ c.Tells operations operation finding)
      (hadded : finding.change?.bind Change.added? = some subject) :
      ∃ target, operation.inserted? = some target ∧
        IsOnlyIn c.newGraph c.oldGraph subject target := by
    obtain ⟨target, v, rfl, hv, -, hsubject⟩ := htells.2.exists_inserted hadded
    exact ⟨target, rfl, h.isOnlyIn_of_inserted htells.1 hv hsubject⟩
  obtain ⟨targets, hsublist, htargets⟩ := exists_sublist_of_forall₂ h.tells_mem hinserted
  rw [filterMap_changes findings (fun _ => rfl) fun _ => rfl]
  exact ⟨targets, (nodup_inserted h.account.uses_nodup).sublist hsublist, htargets⟩

/-- What is told as removed was there, and nothing is told twice. -/
theorem exists_removed : ∃ sources : List Nat, sources.Nodup ∧
    List.Forall₂ (IsOnlyIn c.oldGraph c.newGraph)
      ((Analysis.ofFindings findings).changes.filterMap Change.removed?) sources := by
  have hdeleted (operation : Edit) (finding : Finding) (subject : Subject)
      (htells : operation ∈ operations ∧ c.Tells operations operation finding)
      (hremoved : finding.change?.bind Change.removed? = some subject) :
      ∃ source, operation.deleted? = some source ∧
        IsOnlyIn c.oldGraph c.newGraph subject source := by
    obtain ⟨source, v, rfl, hv, -, hsubject⟩ := htells.2.exists_deleted hremoved
    exact ⟨source, rfl, h.isOnlyIn_of_deleted htells.1 hv hsubject⟩
  obtain ⟨sources, hsublist, hsources⟩ := exists_sublist_of_forall₂ h.tells_mem hdeleted
  rw [filterMap_changes findings (fun _ => rfl) fun _ => rfl]
  exact ⟨sources, (nodup_deleted h.account.uses_nodup).sublist hsublist, hsources⟩

/-- Findings of one form tell of revisions of different pairs of vertices. -/
theorem exists_revised (event? : Finding → Option Change)
    (hevent : ∀ finding event, event? finding = some event → finding.event? = some event) :
    ∃ pairs : Matching, pairs.IsOneToOne ∧
      List.Forall₂ (IsRevision c.oldGraph c.newGraph)
        ((findings.filterMap event?).filterMap Change.revised?) pairs.pairs := by
  have hchanged (operation : Edit) (finding : Finding) (told : Subject × List Revision)
      (htells : operation ∈ operations ∧ c.Tells operations operation finding)
      (hrevised : (event? finding).bind Change.revised? = some told) :
      ∃ pair, operation.changed? = some pair ∧ IsRevision c.oldGraph c.newGraph told pair := by
    obtain ⟨event, hpicked, hrevised⟩ := Option.bind_eq_some_iff.1 hrevised
    obtain ⟨source, target, v, w, rfl, hv, hw, hold, hnew, hsubject, hdetails⟩ :=
      htells.2.exists_changed (hevent finding event hpicked) hrevised
    -- vertices that are changed into each other are matched, so they are of one kind
    obtain ⟨hpair, -⟩ := (h.account.changeVertex_mem_iff source target).1 htells.1
    obtain ⟨v', w', hv', hw', hkind⟩ := h.correspondence.kinds hpair
    cases hv.symm.trans hv'
    cases hw.symm.trans hw'
    exact ⟨(source, target), rfl, v, w, hv, hw, hkind, hold, hnew, hsubject,
      hdetails ▸ areRevisions v w⟩
  obtain ⟨pairs, hsublist, hpairs⟩ := exists_sublist_of_forall₂ h.tells_mem hchanged
  have hone := changed_isOneToOne h.account.uses_nodup
  rw [List.filterMap_filterMap]
  exact ⟨⟨pairs⟩, ⟨hone.sources.sublist (hsublist.map _), hone.targets.sublist (hsublist.map _)⟩,
    hpairs⟩

/-- Definitions are told by kind and name, so no two revisions are of one definition. -/
theorem nodup_revised_definitions (event? : Finding → Option Change)
    (hevent : ∀ finding event, event? finding = some event → finding.event? = some event)
    (hdefinition : ∀ finding event, event? finding = some event →
      event.subject.element.isDefinition = true) :
    (((findings.filterMap event?).filterMap Change.revised?).map (·.1)).Nodup := by
  obtain ⟨pairs, hone, hpairs⟩ := h.exists_revised event? hevent
  have htargets : List.Forall₂ (fun subject target =>
      c.newGraph.IsSubject target subject ∧ subject.element.isDefinition = true)
      (((findings.filterMap event?).filterMap Change.revised?).map (·.1))
      (pairs.pairs.map (·.2)) := by
    have htold (told : Subject × List Revision)
        (hmem : told ∈ (findings.filterMap event?).filterMap Change.revised?) :
        told.1.element.isDefinition = true := by
      obtain ⟨event, hevents, hrevised⟩ := List.mem_filterMap.1 hmem
      obtain ⟨finding, -, hpicked⟩ := List.mem_filterMap.1 hevents
      obtain ⟨subject, details⟩ := told
      obtain ⟨rfl, -⟩ := Change.revised?_eq_some_iff.1 hrevised
      exact hdefinition finding event hpicked
    rw [List.forall₂_map_left_iff, List.forall₂_map_right_iff]
    refine ((List.forall₂_and_left _ _).2 ⟨htold, hpairs⟩).imp fun told pair hboth => ?_
    obtain ⟨hdefined, v, w, -, -, -, -, -, hsubject, -⟩ := hboth
    exact ⟨hsubject, hdefined⟩
  -- two findings about one definition would be about one vertex
  exact nodup_of_forall₂ htargets hone.targets fun subject target target' htold htold' =>
    htold.1.id_eq_of_definition htold'.1 h.built.new htold.2

/-- The events tell the revisions that the findings tell. -/
theorem revised?_perm : ((Analysis.ofFindings findings).changes.filterMap Change.revised?).Perm
    ((findings.filterMap Finding.event?).filterMap Change.revised?) := by
  have hobjects := h.nodup_revised_definitions
    (fun finding => finding.object?.map objectEvent)
    (fun finding event hevent => by cases finding <;> cases hevent; rfl)
    (fun finding event hevent => by cases finding <;> cases hevent; rfl)
  have hinterfaces := h.nodup_revised_definitions
    (fun finding => finding.interface?.map interfaceEvent)
    (fun finding event hevent => by cases finding <;> cases hevent; rfl)
    (fun finding event hevent => by cases finding <;> cases hevent; rfl)
  rw [← List.map_filterMap] at hobjects hinterfaces
  exact revised?_changes_perm hobjects hinterfaces

/-- What is told as revised was so, and no vertex is in two revisions. -/
theorem exists_revisions : ∃ pairs : Matching, pairs.IsOneToOne ∧
    List.Forall₂ (IsRevision c.oldGraph c.newGraph)
      ((Analysis.ofFindings findings).changes.filterMap Change.revised?) pairs.pairs := by
  obtain ⟨pairs, hone, hpairs⟩ := h.exists_revised Finding.event? fun _ _ => id
  obtain ⟨pairs', hpairs', hperm⟩ := List.perm_comp_forall₂ h.revised?_perm hpairs
  exact ⟨⟨pairs'⟩, ⟨(hperm.map _).nodup_iff.2 hone.sources, (hperm.map _).nodup_iff.2 hone.targets⟩,
    hpairs'⟩

/-- Built-in scalars are not told of. -/
theorem isBuiltIn_subject {event : Change}
    (hmem : event ∈ (Analysis.ofFindings findings).changes) : event.subject.isBuiltIn = false := by
  rw [changes_ofFindings, List.mem_append, List.mem_append] at hmem
  rcases hmem with (hmem | hmem) | hmem
  · obtain ⟨finding, hfinding, hevent⟩ := List.mem_filterMap.1 hmem
    obtain ⟨operation, -, htells⟩ := h.exists_operation hfinding
    cases htells with
    | inserted hv hbuiltIn hcovered hsubject =>
      cases hevent
      exact (hsubject.isBuiltIn_eq h.built.new hv).trans hbuiltIn
    | deleted hv hbuiltIn hcovered hsubject =>
      cases hevent
      exact (hsubject.isBuiltIn_eq h.built.old hv).trans hbuiltIn
    | revised hv hw hold hnew hne hsubject =>
      rename_i subject
      obtain ⟨event', hevent', rfl, -⟩ := exists_event?_revisionFinding (revisions _ _) subject
      cases hevent'.symm.trans (Finding.event?_of_change? hevent)
      exact (hsubject.isBuiltIn_eq h.built.new hw).trans hnew
    | _ => cases hevent
  -- objects and interfaces are no scalars
  · obtain ⟨entry, -, rfl⟩ := List.mem_map.1 hmem
    rfl
  · obtain ⟨entry, -, rfl⟩ := List.mem_map.1 hmem
    rfl

end IsTelling

end Comparison

/-- Every event is true, whatever the search may do. What is added or removed is one vertex for each
event, told with its kind, its name and its owner, at a place that is not in the other graph. What is
revised is one pair of vertices of one kind for each event, told with the old name exactly if there
is another one now and with exactly the properties that differ. Nothing is told of built-in scalars.
-/
theorem every_event_is_true {old new : TypeSystem} {oldGraph newGraph : Graph}
    (hold : Graph.ofTypeSystem old = .ok oldGraph) (hnew : Graph.ofTypeSystem new = .ok newGraph)
    (config : Config) (clock : Clock) :
    ∃ diff, Delta.between old new config clock = .ok diff ∧
      (∃ targets : List Nat, targets.Nodup ∧
        List.Forall₂ (IsOnlyIn newGraph oldGraph) (diff.changes.filterMap Change.added?) targets) ∧
      (∃ sources : List Nat, sources.Nodup ∧ List.Forall₂ (IsOnlyIn oldGraph newGraph)
        (diff.changes.filterMap Change.removed?) sources) ∧
      (∃ pairs : Matching, pairs.IsOneToOne ∧ List.Forall₂ (IsRevision oldGraph newGraph)
        (diff.changes.filterMap Change.revised?) pairs.pairs) ∧
      ∀ event ∈ diff.changes, event.subject.isBuiltIn = false := by
  obtain ⟨m, kept, findings, htelling, hdiff⟩ := Delta.exists_between hold hnew config clock
  exact ⟨_, hdiff, htelling.exists_added, htelling.exists_removed, htelling.exists_revisions,
    fun _ => htelling.isBuiltIn_subject⟩

set_option maxRecDepth 20000 in
/-- So it is where a type is renamed and gains an interface and a field, and an enum goes. -/
theorem every_event_is_true_of_a_renamed_type :
    let old : TypeSystem := .ofDocument "interface N { i: ID } type A { i: ID } enum E { X }"
    let new : TypeSystem := .ofDocument "interface N { i: ID } type B implements N { i: ID n: Int }"
    ∃ oldGraph newGraph diff, Graph.ofTypeSystem old = .ok oldGraph ∧
      Graph.ofTypeSystem new = .ok newGraph ∧
      Delta.between old new .standard .stopped = .ok diff ∧
      diff.changes.filterMap Change.added? = [.part .field "n" "B"] ∧
      diff.changes.filterMap Change.removed? = [.definition .enum "E"] ∧
      diff.changes.filterMap Change.revised? = [(.object "B", [.renamed "A"])] ∧
      ∃ pairs : Matching, pairs.IsOneToOne ∧ List.Forall₂ (IsRevision oldGraph newGraph)
        (diff.changes.filterMap Change.revised?) pairs.pairs := by
  have hread : TypeSystem.ofDocument "interface N { i: ID } type A { i: ID } enum E { X }" =
      ⟨⟨[⟨"N", none, [], .interface [] [⟨"i", .named "ID", [], none, []⟩]⟩,
        ⟨"A", none, [], .object [] [⟨"i", .named "ID", [], none, []⟩]⟩,
        ⟨"E", none, [], .enum [⟨"X", none, []⟩]⟩], by decide⟩, .empty⟩ := by
    decide +kernel
  have hread' : TypeSystem.ofDocument "interface N { i: ID } type B implements N { i: ID n: Int }" =
      ⟨⟨[⟨"N", none, [], .interface [] [⟨"i", .named "ID", [], none, []⟩]⟩,
        ⟨"B", none, [], .object ["N"] [⟨"i", .named "ID", [], none, []⟩,
          ⟨"n", .named "Int", [], none, []⟩]⟩], by decide⟩, .empty⟩ := by
    decide +kernel
  rw [hread, hread']
  intro old new
  have hdiff : (Delta.between old new .standard .stopped).toOption = some
      ⟨[.removed (.definition .enum "E"), .added (.part .field "n" "B"),
        .objectChanged "B" [.revised (.renamed "A"), .addedInterface "N"]], [], false⟩ := by
    decide
  obtain ⟨oldGraph, newGraph, hold, hnew⟩ := Delta.exists_graphs_of_between hdiff
  obtain ⟨diff, hbetween, -, -, hrevisions, -⟩ := every_event_is_true hold hnew .standard .stopped
  cases hbetween.symm.trans (eq_ok_of_toOption hdiff)
  exact ⟨oldGraph, newGraph, _, hold, hnew, hbetween, rfl, rfl, rfl, hrevisions⟩

end SchemaDelta
