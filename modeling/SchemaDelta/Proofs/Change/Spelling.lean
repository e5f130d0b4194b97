import SchemaDelta.Change.Codec
import SchemaDelta.Proofs.Lists

/-!
Reports are read back. What a report is written as is read as that report, and so is every other
spelling of it: one in which the members of a record stand in another order or among others, or in
which those that are null are left out.
-/

namespace SchemaDelta

namespace Document

/-! ## Spellings -/

mutual

/-- Whether a document spells another: its records have the members of the other one's records, in
whatever order and among whatever others, and none of them twice. -/
inductive Spells : Document → Document → Prop where
  | same (document : Document) : Spells document document
  | list {items items' : List Document} (h : List.Forall₂ Spells items items') :
    Spells (.list items) (.list items')
  | record {members members' : List (String × Document)} (hnames : (members.map Prod.fst).Nodup)
    (h : ∀ name value, (name, value) ∈ members' → SpellsMember (members.lookup name) value) :
    Spells (.record members) (.record members')

/-- Whether a member spells another, which can be left out if it is null. -/
inductive SpellsMember : Option Document → Document → Prop where
  | present {document value : Document} (h : Spells document value) :
    SpellsMember (some document) value
  | absent : SpellsMember none .null

end

/-- Whether all members of a record are spelled by members that are looked up by name. -/
def AreSpelledBy (members members' : List (String × Document)) : Prop :=
  ∀ name value, (name, value) ∈ members' → SpellsMember (members.lookup name) value

/-- Whether a reader takes every spelling of what a value is written as for that value. -/
def Reads {α : Type} (read? : Document → Option α) (encode : α → Document) : Prop :=
  ∀ a document, document.Spells (encode a) → read? document = some a

theorem AreSpelledBy.nil (members : List (String × Document)) : AreSpelledBy members [] :=
  fun _ _ hmem => absurd hmem List.not_mem_nil

theorem AreSpelledBy.cons {members members' : List (String × Document)} {name : String}
    {value : Document} (h : SpellsMember (members.lookup name) value)
    (hrest : AreSpelledBy members members') :
    AreSpelledBy members ((name, value) :: members') := by
  intro name' value' hmem
  rcases List.mem_cons.1 hmem with heq | hmem
  · cases heq
    exact h
  · exact hrest name' value' hmem

theorem AreSpelledBy.spells {members members' : List (String × Document)}
    (h : AreSpelledBy members members') (hnames : (members.map Prod.fst).Nodup) :
    Spells (.record members) (.record members') :=
  .record hnames h

/-! ## What spells a document -/

variable {document value : Document} {members members' : List (String × Document)}
  {member? : Option Document}

theorem Spells.eq_text {text : String} (h : document.Spells (.text text)) :
    document = .text text := by
  cases h
  rfl

theorem Spells.eq_bool {truth : Bool} (h : document.Spells (.bool truth)) :
    document = .bool truth := by
  cases h
  rfl

theorem Spells.eq_null (h : document.Spells .null) : document = .null := by
  cases h
  rfl

theorem Spells.exists_list {items' : List Document} (h : document.Spells (.list items')) :
    ∃ items, document = .list items ∧ List.Forall₂ Spells items items' := by
  cases h with
  | same => exact ⟨items', rfl, List.forall₂_same.2 fun item _ => .same item⟩
  | list h => exact ⟨_, rfl, h⟩

theorem Spells.exists_record (hnames : (members'.map Prod.fst).Nodup)
    (h : document.Spells (.record members')) :
    ∃ members, document = .record members ∧ AreSpelledBy members members' := by
  cases h with
  | same =>
    refine ⟨members', rfl, fun name value hmem => ?_⟩
    rw [lookup_eq_some_of_mem hnames hmem]
    exact .present (.same value)
  | record hnames h => exact ⟨_, rfl, h⟩

theorem SpellsMember.exists_spells (h : SpellsMember member? value) (hvalue : value ≠ .null) :
    ∃ document, member? = some document ∧ document.Spells value := by
  cases h with
  | present h => exact ⟨_, rfl, h⟩
  | absent => exact absurd rfl hvalue

theorem SpellsMember.eq_text {text : String} (h : SpellsMember member? (.text text)) :
    member? = some (.text text) := by
  obtain ⟨document, rfl, hspells⟩ := h.exists_spells Document.noConfusion
  rw [hspells.eq_text]

theorem SpellsMember.optionalText?_eq {text? : Option String}
    (h : SpellsMember member? (.ofOptionalText text?)) : optionalText? member? = some text? := by
  cases text? with
  | some text =>
    rw [SpellsMember.eq_text h]
    rfl
  | none =>
    cases h with
    | present h =>
      rw [h.eq_null]
      rfl
    | absent => rfl

/-! ## Reading parts -/

/-- Parts that are written under their names are found under them. -/
theorem AreSpelledBy.exists_read? {names : List String} {values : List Document}
    (hlength : names.length = values.length) (h : AreSpelledBy members (names.zip values)) :
    ∃ found, (Parts.named members).read? names = some found ∧
      List.Forall₂ SpellsMember found values := by
  refine ⟨names.map fun name => members.lookup name, rfl, ?_⟩
  rw [List.forall₂_map_left_iff, List.forall₂_iff_zip]
  exact ⟨hlength, h _ _⟩

theorem Spells.exists_parts (names : List String) (values : List Document) (hnames : names.Nodup)
    (hlength : names.length = values.length) (h : document.Spells (.record (names.zip values))) :
    ∃ parts found, document.parts? = some parts ∧ parts.read? names = some found ∧
      List.Forall₂ SpellsMember found values := by
  obtain ⟨members, rfl, hmembers⟩ := h.exists_record
    (by rwa [List.map_fst_zip (Nat.le_of_eq hlength)])
  obtain ⟨found, hread, hfound⟩ := hmembers.exists_read? hlength
  exact ⟨_, found, rfl, hread, hfound⟩

theorem Spells.exists_shaped {name : String} (names : List String) (values : List Document)
    (hnames : (kindMember :: names).Nodup) (hlength : names.length = values.length)
    (h : document.Spells (.record ((kindMember, .text name) :: names.zip values))) :
    ∃ parts found, document.shaped? = some (.text name, parts) ∧ parts.read? names = some found ∧
      List.Forall₂ SpellsMember found values := by
  obtain ⟨members, rfl, hmembers⟩ := h.exists_record
    (by rwa [List.map_cons, List.map_fst_zip (Nat.le_of_eq hlength)])
  obtain ⟨found, hread, hfound⟩ := AreSpelledBy.exists_read? hlength fun name value hmem =>
    hmembers name value (List.mem_cons_of_mem _ hmem)
  refine ⟨_, found, ?_, hread, hfound⟩
  rw [shaped?, (hmembers kindMember _ List.mem_cons_self).eq_text, Option.map_some]

/-- A list is read item by item. -/
theorem SpellsMember.exists_list {α : Type} {read? : Document → Option α}
    {encode : α → Document} (h : Reads read? encode) {as : List α}
    (hmember : SpellsMember member? (.list (as.map encode))) :
    ∃ document, member? = some document ∧ document.list? read? = some as := by
  obtain ⟨document, rfl, hspells⟩ := hmember.exists_spells Document.noConfusion
  obtain ⟨items, rfl, hitems⟩ := hspells.exists_list
  refine ⟨_, rfl, ?_⟩
  rw [list?]
  clear hmember hspells
  induction as generalizing items with
  | nil =>
    cases hitems
    rfl
  | cons a as ih =>
    cases hitems with
    | cons hitem hrest =>
      rw [List.mapM_cons, h a _ hitem, ih _ hrest]
      rfl

end Document

open Document

/-! ## Details -/

theorem PropertyChange.ofParts?_eq {change : PropertyChange} {parts : Parts}
    {found : List (Option Document)} (hread : parts.read? members = some found)
    (hfound : List.Forall₂ SpellsMember found
      [.text change.key, .ofOptionalText change.old, .ofOptionalText change.new]) :
    ofParts? parts = some change := by
  obtain _ | ⟨hkey, _ | ⟨hold, _ | ⟨hnew, _ | _⟩⟩⟩ := hfound
  rw [ofParts?, hread, hkey.eq_text]
  simp only [hold.optionalText?_eq, hnew.optionalText?_eq, bind, Option.bind, text?]

theorem Revision.renamedOfParts?_eq {oldName : String} {parts : Parts}
    {found : List (Option Document)} (hread : parts.read? ["old_name"] = some found)
    (hfound : List.Forall₂ SpellsMember found [.text oldName]) :
    renamedOfParts? parts = some (renamed oldName) := by
  obtain _ | ⟨hname, _ | _⟩ := hfound
  rw [renamedOfParts?, hread, hname.eq_text]
  rfl

/-- The parts of a revision are found in every spelling of it. -/
theorem Revision.exists_shaped {revision : Revision} {document : Document}
    (h : document.Spells revision.encode) : ∃ name parts,
      document.shaped? = some (.text name, parts) ∧
      (name = "Renamed" ∧ renamedOfParts? parts = some revision ∨
        name = "PropertyChanged" ∧
          (propertyChanged <$> PropertyChange.ofParts? parts) = some revision) := by
  cases revision with
  | renamed oldName =>
    obtain ⟨parts, found, hshaped, hread, hfound⟩ :=
      Spells.exists_shaped ["old_name"] [.text oldName] (by decide) rfl h
    exact ⟨_, parts, hshaped, Or.inl ⟨rfl, renamedOfParts?_eq hread hfound⟩⟩
  | propertyChanged change =>
    obtain ⟨parts, found, hshaped, hread, hfound⟩ := Spells.exists_shaped PropertyChange.members
      [.text change.key, .ofOptionalText change.old, .ofOptionalText change.new] (by decide) rfl h
    exact ⟨_, parts, hshaped,
      Or.inr ⟨rfl, by rw [PropertyChange.ofParts?_eq hread hfound]; rfl⟩⟩

theorem Revision.reads : Reads decode? encode := by
  intro revision document h
  obtain ⟨name, parts, hshaped, ⟨rfl, hparts⟩ | ⟨rfl, hparts⟩⟩ := exists_shaped h
  · rw [decode?, hshaped]
    exact hparts
  · rw [decode?, hshaped]
    exact hparts

theorem ObjectDetail.reads : Reads decode? encode := by
  intro detail document h
  cases detail with
  | addedInterface name =>
    obtain ⟨parts, found, hshaped, hread, hfound⟩ :=
      Spells.exists_shaped ["interface_name"] [.text name] (by decide) rfl h
    obtain _ | ⟨hname, _ | _⟩ := hfound
    rw [decode?, hshaped]
    simp only [bind, Option.bind, addedInterfaceOfParts?, hread, hname.eq_text]
    rfl
  | revised revision =>
    obtain ⟨name, parts, hshaped, ⟨rfl, hparts⟩ | ⟨rfl, hparts⟩⟩ := Revision.exists_shaped h
    · rw [decode?, hshaped]
      exact congrArg (Option.map revised) hparts
    · rw [decode?, hshaped]
      exact congrArg (Option.map revised) hparts

/-! ## Events -/

theorem shapeOfName?_shapeName (shape : SubjectKind × Occurrence) :
    shapeOfName? (shapeName shape) = some shape := by
  obtain ⟨kind, occurrence⟩ := shape
  cases kind with
  | object => cases occurrence <;> decide
  | definition kind => cases kind <;> cases occurrence <;> decide
  | part kind => cases kind <;> cases occurrence <;> decide

/-- The parts of an event are told apart by their names, and none is called like the shape. -/
theorem nodup_members (kind : SubjectKind) (occurrence : Occurrence) :
    (kindMember :: (kind.members ++ occurrence.members)).Nodup := by
  cases kind with
  | object => cases occurrence <;> decide
  | definition kind => cases kind <;> cases occurrence <;> decide
  | part kind => cases kind <;> cases occurrence <;> decide

namespace Change

theorem length_values (change : Change) :
    (change.subject.kind.members ++ change.occurrence.members).length =
      (change.subject.values ++ change.detailValues).length := by
  have hsubject (subject : Subject) : subject.kind.members.length = subject.values.length := by
    cases subject with
    | object name => rfl
    | definition kind name => rfl
    | part kind name owner => cases kind <;> rfl
  have hdetails : change.occurrence.members.length = change.detailValues.length := by
    cases change <;> rfl
  rw [List.length_append, List.length_append, hsubject, hdetails]

/-- A subject is read first, and what comes after it is left. -/
theorem exists_subjectOfParts? {subject : Subject} {found : List (Option Document)}
    {values : List Document} (h : List.Forall₂ SpellsMember found (subject.values ++ values)) :
    ∃ rest, subjectOfParts? subject.kind found = some (subject, rest) ∧
      List.Forall₂ SpellsMember rest values := by
  cases subject with
  | object name | definition kind name =>
    obtain _ | ⟨hname, hrest⟩ := h
    rw [hname.eq_text]
    exact ⟨_, rfl, hrest⟩
  | part kind name owner =>
    obtain _ | ⟨hname, _ | ⟨howner, hrest⟩⟩ := h
    rw [hname.eq_text, howner.eq_text]
    exact ⟨_, rfl, hrest⟩

theorem reads : Reads decode? encode := by
  intro change document h
  obtain ⟨parts, found, hshaped, hread, hfound⟩ := Spells.exists_shaped
    (change.subject.kind.members ++ change.occurrence.members)
    (change.subject.values ++ change.detailValues) (nodup_members _ _) change.length_values h
  obtain ⟨rest, hsubject, hrest⟩ := exists_subjectOfParts? hfound
  simp only [decode?, hshaped, bind, Option.bind, text?, shapeOfName?_shapeName, hread, hsubject]
  cases change with
  | added subject | removed subject =>
    cases hrest
    rfl
  | objectChanged name details =>
    obtain _ | ⟨hdetails, _ | _⟩ := hrest
    obtain ⟨document', rfl, hlist⟩ := hdetails.exists_list ObjectDetail.reads
    exact congrArg (Option.map (objectChanged name)) hlist
  | definitionChanged kind name details =>
    obtain _ | ⟨hdetails, _ | _⟩ := hrest
    obtain ⟨document', rfl, hlist⟩ := hdetails.exists_list Revision.reads
    exact congrArg (Option.map (definitionChanged kind name)) hlist
  | partChanged kind name owner details =>
    obtain _ | ⟨hdetails, _ | _⟩ := hrest
    obtain ⟨document', rfl, hlist⟩ := hdetails.exists_list Revision.reads
    exact congrArg (Option.map (partChanged kind name owner)) hlist

end Change

/-! ## Edges -/

theorem Place.reads : Reads decode? encode := by
  intro place document h
  obtain ⟨parts, found, hparts, hread, hfound⟩ := Spells.exists_parts ["kind", "path"]
    [.text place.kind.text, .text place.path] (by decide) rfl h
  obtain _ | ⟨hkind, _ | ⟨hpath, _ | _⟩⟩ := hfound
  simp only [decode?, hparts, bind, Option.bind, hread, hkind.eq_text, hpath.eq_text, word?, text?,
    ElementKind.ofText?_text]

theorem EdgeRecord.reads : Reads decode? encode := by
  intro edge document h
  obtain ⟨parts, found, hparts, hread, hfound⟩ := Spells.exists_parts members
    [.text edge.operation.text, .text edge.label, .ofOptionalText edge.oldLabel, edge.one.encode,
      edge.two.encode] (by decide) rfl h
  obtain _ | ⟨hoperation, _ | ⟨hlabel, _ | ⟨hold, _ | ⟨hone, _ | ⟨htwo, _ | _⟩⟩⟩⟩⟩ := hfound
  obtain ⟨one, rfl, hspells⟩ := hone.exists_spells Document.noConfusion
  obtain ⟨two, rfl, hspells'⟩ := htwo.exists_spells Document.noConfusion
  simp only [decode?, hparts, bind, Option.bind, hread, hoperation.eq_text, hlabel.eq_text, word?,
    text?, EditKind.ofText?_text, hold.optionalText?_eq, Place.reads _ _ hspells,
    Place.reads _ _ hspells']

/-! ## Reports -/

theorem Delta.reads : Reads decode? encode := by
  intro diff document h
  obtain ⟨parts, found, hparts, hread, hfound⟩ := Spells.exists_parts members
    [.list (diff.changes.map Change.encode), .list (diff.unclassified.map EdgeRecord.encode),
      .bool diff.approximate] (by decide) rfl h
  obtain _ | ⟨hchanges, _ | ⟨hunclassified, _ | ⟨happroximate, _ | _⟩⟩⟩ := hfound
  obtain ⟨changes, rfl, hlist⟩ := hchanges.exists_list Change.reads
  obtain ⟨unclassified, rfl, hlist'⟩ := hunclassified.exists_list EdgeRecord.reads
  obtain ⟨approximate, rfl, hspells⟩ := happroximate.exists_spells Document.noConfusion
  simp only [decode?, hparts, bind, Option.bind, hread, hlist, hlist', hspells.eq_bool, bool?]

/-- Whatever a report may tell, what it is written as is read as that report, and so is every other
spelling of it. What is read from a document is read again from what it is then written as. So no
two reports are written alike. -/
theorem a_report_is_read_back_however_it_is_spelled :
    (∀ diff : Delta, Delta.decode? diff.encode = some diff) ∧
    (∀ (diff : Delta) (document : Document), document.Spells diff.encode →
      Delta.decode? document = some diff) ∧
    (∀ (document : Document) (diff : Delta), Delta.decode? document = some diff →
      Delta.decode? diff.encode = some diff) ∧
    Function.Injective Delta.encode := by
  have hreads (diff : Delta) : Delta.decode? diff.encode = some diff :=
    Delta.reads diff _ (.same _)
  refine ⟨hreads, Delta.reads, fun _ diff _ => hreads diff, fun diff diff' heq => ?_⟩
  have hsame := congrArg Delta.decode? heq
  rw [hreads, hreads] at hsame
  exact Option.some.inj hsame

/-- So it is with a report whose members are out of order, one of them unknown and one left out. -/
theorem a_report_is_read_back_from_another_spelling :
    let diff : Delta :=
      ⟨[.objectChanged "B" [.revised (.propertyChanged ⟨"description", none, some "b"⟩)]], [], true⟩
    let detail : Document :=
      .record [("new", .text "b"), ("key", .text "description"), ("kind", .text "PropertyChanged")]
    let event : Document :=
      .record [("details", .list [detail]), ("name", .text "B"), ("kind", .text "ObjectChanged")]
    let document : Document :=
      .record [("approximate", .bool true), ("version", .natural 2), ("unclassified", .list []),
        ("changes", .list [event])]
    document.Spells diff.encode ∧ Delta.decode? document = some diff ∧
      Delta.decode? diff.encode = some diff := by
  intro diff detail event document
  have hdetail : detail.Spells
      (ObjectDetail.encode (.revised (.propertyChanged ⟨"description", none, some "b"⟩))) :=
    AreSpelledBy.spells (.cons (.present (.same _)) <| .cons (.present (.same _)) <|
      .cons .absent <| .cons (.present (.same _)) <| .nil _) (by decide)
  have hevent : event.Spells (Change.encode
      (.objectChanged "B" [.revised (.propertyChanged ⟨"description", none, some "b"⟩)])) :=
    AreSpelledBy.spells (.cons (.present (.same _)) <| .cons (.present (.same _)) <|
      .cons (.present (.list (.cons hdetail .nil))) <| .nil _) (by decide)
  have hdocument : document.Spells diff.encode :=
    AreSpelledBy.spells (.cons (.present (.list (.cons hevent .nil))) <|
      .cons (.present (.same _)) <| .cons (.present (.same _)) <| .nil _) (by decide)
  obtain ⟨-, hspelled, hagain, -⟩ := a_report_is_read_back_however_it_is_spelled
  have hread := hspelled diff document hdocument
  exact ⟨hdocument, hread, hagain document diff hread⟩

end SchemaDelta
