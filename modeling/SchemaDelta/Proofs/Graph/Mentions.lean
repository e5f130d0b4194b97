import SchemaDelta.Proofs.Graph.Entries

/-!
Who mentions what. Elements of a kind that has types mention those, objects and interfaces mention
interfaces, unions mention members, and applied directives mention their definitions.
-/

namespace SchemaDelta

/-- In which roles elements of a kind mention definitions. -/
inductive Mentions : ElementKind → MentionRole → Prop where
  | typeOf {kind : ElementKind} (h : kind.hasType = true) (rendered : String) :
    Mentions kind (.typeOf rendered)
  | objectInterface : Mentions .object .interface
  | interfaceInterface : Mentions .interface .interface
  | member : Mentions .union .member
  | application : Mentions .appliedDirective .directive

/-- Whether all mentions among entries are made by elements of kinds that make such mentions. -/
structure MentionsFit (entries : List Entry) : Prop where
  fits : ∀ source name role, .mention source name role ∈ entries → Mentions source.kind role

namespace MentionsFit

variable {entries more : List Entry}

theorem nil : MentionsFit [] :=
  ⟨fun _ _ _ h => absurd h List.not_mem_nil⟩

theorem append (h : MentionsFit entries) (hmore : MentionsFit more) :
    MentionsFit (entries ++ more) :=
  ⟨fun source name role hmem => (List.mem_append.1 hmem).elim (h.fits source name role)
    (hmore.fits source name role)⟩

theorem flatMap {α : Type} {f : α → List Entry} (as : List α) (h : ∀ a ∈ as, MentionsFit (f a)) :
    MentionsFit (as.flatMap f) := by
  induction as with
  | nil => exact nil
  | cons a as ih =>
    exact (h a List.mem_cons_self).append (ih fun b hb => h b (List.mem_cons_of_mem a hb))

theorem element (owner : Place) (label : String) (v : Vertex) :
    MentionsFit [.element owner label v] :=
  ⟨fun _ _ _ h => nomatch List.mem_singleton.1 h⟩

theorem mentions {source : Place} {role : MentionRole} (h : Mentions source.kind role)
    (names : List String) : MentionsFit (names.map fun name => .mention source name role) where
  fits source' name' role' hmem := by
    obtain ⟨name, -, heq⟩ := List.mem_map.1 hmem
    cases heq
    exact h

theorem applicationEntries (owner : Place) (before : List String)
    (directives : List AppliedDirective) :
    MentionsFit (applicationEntries owner before directives) := by
  induction directives generalizing before with
  | nil => exact nil
  | cons d directives ih =>
    have hmention : MentionsFit
        [.mention (d.vertex owner (before.count d.name)).place d.name .directive] :=
      mentions .application [d.name]
    exact (element ..).append (hmention.append (ih (d.name :: before)))

theorem inputValue (owner : Place) {kind : ElementKind} (label : String)
    (hkind : kind.hasType = true) (value : InputValue) :
    MentionsFit (value.entries owner kind label) := by
  have hmention : MentionsFit [.mention (value.vertex owner kind).place value.type.name
      (.typeOf value.type.rendered)] := mentions (.typeOf hkind _) [value.type.name]
  exact (element ..).append (hmention.append (applicationEntries _ [] value.directives))

theorem field (owner : Place) (f : Field) : MentionsFit (f.entries owner) := by
  have hmention : MentionsFit [.mention (f.vertex owner).place f.type.name
      (.typeOf f.type.rendered)] := mentions (.typeOf rfl _) [f.type.name]
  exact (element ..).append (hmention.append ((flatMap _ fun a _ =>
    inputValue _ Label.argument rfl a).append (applicationEntries _ [] f.directives)))

theorem body {owner : Place} {body : TypeBody} (howner : owner.kind = body.kind) :
    MentionsFit (body.entries owner) := by
  cases body with
  | object interfaces fields =>
    exact (mentions (by rw [howner]; exact .objectInterface) interfaces).append
      (flatMap _ fun f _ => field owner f)
  | interface interfaces fields =>
    exact (mentions (by rw [howner]; exact .interfaceInterface) interfaces).append
      (flatMap _ fun f _ => field owner f)
  | union members => exact mentions (by rw [howner]; exact .member) members
  | inputObject fields => exact flatMap _ fun a _ => inputValue owner Label.inputField rfl a
  | enum values =>
    exact flatMap _ fun value _ => (element ..).append (applicationEntries _ [] value.directives)
  | scalar => exact nil

theorem typeSystem (ts : TypeSystem) : MentionsFit ts.entries :=
  (flatMap _ fun d _ => (applicationEntries d.place [] d.directives).append (body rfl)).append
    (flatMap _ fun _ _ => flatMap _ fun a _ => inputValue _ Label.argument rfl a)

end MentionsFit

end SchemaDelta
