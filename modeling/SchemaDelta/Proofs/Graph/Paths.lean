import SchemaDelta.Proofs.Graph.Built
import SchemaDelta.Proofs.Renaming.Names

/-!
Paths in the outline of a type system. The path of an element is told by its owner and its name,
except that the applications of one directive to one element are numbered; and where there is an
application with a number, those with the smaller numbers are there too. If all elements have
names, a path is read back from its end.
-/

namespace SchemaDelta

/-- What the paths of elements come from. -/
structure HasPaths (entries : List Entry) : Prop where
  inner : ∀ owner label v, .element owner label v ∈ entries → v.kind ≠ .appliedDirective →
    v.path = innerPath owner v.name
  applied : ∀ owner label v, .element owner label v ∈ entries → v.kind = .appliedDirective →
    ∃ number, v.path = applicationPath owner v.name number ∧ ∀ earlier < number,
      ∃ label w, .element owner label w ∈ entries ∧
        w.place = ⟨.appliedDirective, applicationPath owner v.name earlier⟩

/-- The number of an application counts from those that come before the list. -/
theorem exists_number_of_mem_applicationEntries {owner owner' : Place} {before : List String}
    {directives : List AppliedDirective} {label : String} {v : Vertex}
    (h : .element owner' label v ∈ applicationEntries owner before directives) :
    owner' = owner ∧ v.kind = .appliedDirective ∧ ∃ number,
      v.path = applicationPath owner v.name number ∧ before.count v.name ≤ number ∧
        ∀ earlier < number, before.count v.name ≤ earlier →
          ∃ label w, .element owner label w ∈ applicationEntries owner before directives ∧
            w.place = ⟨.appliedDirective, applicationPath owner v.name earlier⟩ := by
  induction directives generalizing before with
  | nil => cases h
  | cons d directives ih =>
    rw [applicationEntries, List.mem_cons, List.mem_cons] at h
    rcases h with heq | heq | hmem
    · cases heq
      exact ⟨rfl, rfl, before.count d.name, rfl, Nat.le_refl _, fun earlier hlt hle =>
        absurd hle (Nat.not_le.2 hlt)⟩
    · cases heq
    · obtain ⟨howner, hkind, number, hpath, hle, hearlier⟩ := ih hmem
      have hcount : before.count v.name ≤ (d.name :: before).count v.name := List.count_le_count_cons
      refine ⟨howner, hkind, number, hpath, Nat.le_trans hcount hle, fun earlier hlt hfrom => ?_⟩
      by_cases hlater : (d.name :: before).count v.name ≤ earlier
      · obtain ⟨label', w, hw, hplace⟩ := hearlier earlier hlt hlater
        exact ⟨label', w, by simp [applicationEntries, hw], hplace⟩
      -- between the two counts there is the first application of the list, and no other
      · have hname : d.name = v.name ∧ earlier = before.count v.name := by
          rw [List.count_cons] at hlater
          split at hlater
          · next hsame => exact ⟨by simpa using hsame, by omega⟩
          · omega
        refine ⟨_, d.vertex owner (before.count d.name), List.mem_cons_self, ?_⟩
        rw [hname.2, ← hname.1]
        rfl

namespace HasPaths

variable {entries more : List Entry}

theorem nil : HasPaths [] :=
  ⟨fun _ _ _ h => absurd h List.not_mem_nil, fun _ _ _ h => absurd h List.not_mem_nil⟩

theorem append (h : HasPaths entries) (hmore : HasPaths more) : HasPaths (entries ++ more) where
  inner owner label v hmem :=
    (List.mem_append.1 hmem).elim (h.inner owner label v) (hmore.inner owner label v)
  applied owner label v hmem hkind := by
    rcases List.mem_append.1 hmem with hmem | hmem
    · obtain ⟨number, hpath, hearlier⟩ := h.applied owner label v hmem hkind
      refine ⟨number, hpath, fun earlier hlt => ?_⟩
      obtain ⟨label', w, hw, hplace⟩ := hearlier earlier hlt
      exact ⟨label', w, List.mem_append_left _ hw, hplace⟩
    · obtain ⟨number, hpath, hearlier⟩ := hmore.applied owner label v hmem hkind
      refine ⟨number, hpath, fun earlier hlt => ?_⟩
      obtain ⟨label', w, hw, hplace⟩ := hearlier earlier hlt
      exact ⟨label', w, List.mem_append_right _ hw, hplace⟩

theorem flatMap {α : Type} {f : α → List Entry} (as : List α) (h : ∀ a ∈ as, HasPaths (f a)) :
    HasPaths (as.flatMap f) := by
  induction as with
  | nil => exact nil
  | cons a as ih =>
    exact (h a List.mem_cons_self).append (ih fun b hb => h b (List.mem_cons_of_mem a hb))

/-- An element that is no application, by itself. -/
theorem element {owner : Place} {label : String} {v : Vertex} (hkind : v.kind ≠ .appliedDirective)
    (hpath : v.path = innerPath owner v.name) : HasPaths [.element owner label v] where
  inner owner' label' v' hmem _ := by
    cases List.mem_singleton.1 hmem
    exact hpath
  applied owner' label' v' hmem hkind' := by
    cases List.mem_singleton.1 hmem
    exact absurd hkind' hkind

theorem mentions (names : List String) (f : String → Entry) (hf : ∀ name, (f name).vertex? = none) :
    HasPaths (names.map f) := by
  have hnone (owner : Place) (label : String) (v : Vertex) :
      .element owner label v ∉ names.map f := fun hmem => by
    obtain ⟨name, -, hname⟩ := List.mem_map.1 hmem
    have := hf name
    rw [hname] at this
    cases this
  exact ⟨fun owner label v hmem => absurd hmem (hnone owner label v),
    fun owner label v hmem => absurd hmem (hnone owner label v)⟩

/-! ## The outline of a definition -/

theorem applicationEntries (owner : Place) (directives : List AppliedDirective) :
    HasPaths (applicationEntries owner [] directives) where
  inner owner' label v hmem hkind :=
    absurd (exists_number_of_mem_applicationEntries hmem).2.1 hkind
  applied owner' label v hmem _ := by
    obtain ⟨rfl, -, number, hpath, -, hearlier⟩ := exists_number_of_mem_applicationEntries hmem
    exact ⟨number, hpath, fun earlier hlt => hearlier earlier hlt (by simp)⟩

theorem inputValue {owner : Place} {kind : ElementKind} {label : String}
    (hkind : kind ≠ .appliedDirective) (value : InputValue) :
    HasPaths (value.entries owner kind label) :=
  (element hkind rfl).append
    ((mentions [value.type.name] (.mention _ · _) fun _ => rfl).append
      (applicationEntries _ value.directives))

theorem field (owner : Place) (f : Field) : HasPaths (f.entries owner) :=
  (element (show ElementKind.field ≠ .appliedDirective by decide) rfl).append
    ((mentions [f.type.name] (.mention _ · _) fun _ => rfl).append
      ((flatMap _ fun a _ => inputValue (by decide) a).append (applicationEntries _ f.directives)))

theorem enumValue (owner : Place) (value : EnumValue) : HasPaths (value.entries owner) :=
  (element (show ElementKind.enumValue ≠ .appliedDirective by decide) rfl).append
    (applicationEntries _ value.directives)

theorem body (owner : Place) (body : TypeBody) : HasPaths (body.entries owner) := by
  cases body with
  | object interfaces fields | interface interfaces fields =>
    exact (mentions interfaces _ fun _ => rfl).append (flatMap fields fun f _ => field owner f)
  | union members => exact mentions members _ fun _ => rfl
  | inputObject fields => exact flatMap fields fun f _ => inputValue (by decide) f
  | enum values => exact flatMap values fun value _ => enumValue owner value
  | scalar => exact nil

theorem typeDefinition (d : TypeDefinition) : HasPaths d.entries :=
  (applicationEntries d.place d.directives).append (body d.place d.body)

theorem directiveDefinition (d : DirectiveDefinition) : HasPaths d.entries :=
  flatMap d.arguments fun a _ => inputValue (by decide) a

theorem typeSystem (ts : TypeSystem) : HasPaths ts.entries :=
  (flatMap _ fun d _ => typeDefinition d).append (flatMap _ fun d _ => directiveDefinition d)

end HasPaths

/-! ## Reading paths -/

/-- Whether all elements of a type system have names. -/
def TypeSystem.HasNames (ts : TypeSystem) : Prop :=
  ∀ v ∈ ts.vertices, IsName v.name

instance (ts : TypeSystem) : Decidable ts.HasNames :=
  inferInstanceAs (Decidable (∀ v ∈ ts.vertices, IsName v.name))

section Reading

variable {owner owner' : Place} {name name' : String}

theorem innerPath_inj (hname : IsName name) (hname' : IsName name')
    (h : innerPath owner name = innerPath owner' name') :
    owner.path = owner'.path ∧ name = name' := by
  have hdot (start : String) := leadsToName_append (Or.inl rfl) start
  obtain ⟨hstart, heq⟩ := eq_of_append_name_eq (hdot _) (hdot _) hname hname' h
  exact ⟨(String.append_left_inj ".").1 hstart, heq⟩

theorem toList_toString (n : Nat) : (toString n).toList = Nat.toDigits 10 n :=
  Nat.toList_repr

theorem eq_of_toString_eq {n n' : Nat} (h : toString n = toString n') : n = n' := by
  have hdigits : Nat.toDigits 10 n = Nat.toDigits 10 n' := by
    rw [← toList_toString, ← toList_toString, h]
  have hvalue := congrArg (fun digits => Nat.ofDigitChars 10 digits 0) hdigits
  simpa [Nat.ofDigitChars_toDigits] using hvalue

/-- A number has the form of a name. -/
theorem isName_toString (n : Nat) : IsName (toString n) := by
  refine ⟨fun hempty => ?_, fun c hc => ?_⟩
  · have hdigits := toList_toString n
    rw [hempty] at hdigits
    exact Nat.toDigits_ne_nil hdigits.symm
  · rw [toList_toString] at hc
    have hdigit := Nat.isDigit_of_mem_toDigits (by decide) (by decide) hc
    rw [Sdl.isNamePart, hdigit, Bool.or_true]

theorem applicationPath_zero (owner : Place) (name : String) :
    applicationPath owner name 0 = owner.path ++ "@" ++ name :=
  String.append_empty

theorem applicationPath_succ (owner : Place) (name : String) (n : Nat) :
    applicationPath owner name (n + 1) =
      applicationPath owner name 0 ++ "#" ++ toString (n + 1) := by
  rw [applicationPath_zero, applicationPath, if_neg (Nat.succ_ne_zero n)]
  exact String.append_assoc.symm

/-- The first application of a directive has no number, by which the others are told. -/
theorem applicationPath_inj {n n' : Nat} (hname : IsName name) (hname' : IsName name')
    (h : applicationPath owner name n = applicationPath owner' name' n') :
    owner.path = owner'.path ∧ name = name' ∧ n = n' := by
  have hat (start : String) := leadsToName_append (Or.inr (Or.inl rfl)) start
  have hhash (start : String) := leadsToName_append (Or.inr (Or.inr rfl)) start
  have hzero (h : applicationPath owner name 0 = applicationPath owner' name' 0) :
      owner.path = owner'.path ∧ name = name' := by
    rw [applicationPath_zero, applicationPath_zero] at h
    obtain ⟨hstart, heq⟩ := eq_of_append_name_eq (hat _) (hat _) hname hname' h
    exact ⟨(String.append_left_inj "@").1 hstart, heq⟩
  -- what leads to a number ends otherwise than what leads to a name
  have hne (start start' : String) : start ++ "@" ≠ start' ++ "#" := fun heq => by
    have hlast := congrArg (fun text => text.toList.getLast?) heq
    simp at hlast
  cases n with
  | zero =>
    cases n' with
    | zero => exact ⟨(hzero h).1, (hzero h).2, rfl⟩
    | succ n' =>
      rw [applicationPath_zero, applicationPath_succ] at h
      have hsplit := eq_of_append_name_eq (hat _) (hhash _) hname (isName_toString _) h
      exact absurd hsplit.1 (hne _ _)
  | succ n =>
    cases n' with
    | zero =>
      rw [applicationPath_zero, applicationPath_succ] at h
      have hsplit := eq_of_append_name_eq (hhash _) (hat _) (isName_toString _) hname' h
      exact absurd hsplit.1.symm (hne _ _)
    | succ n' =>
      rw [applicationPath_succ, applicationPath_succ] at h
      obtain ⟨hstart, hnumber⟩ := eq_of_append_name_eq (hhash _) (hhash _) (isName_toString _)
        (isName_toString _) h
      obtain ⟨howner, heq⟩ := hzero ((String.append_left_inj "#").1 hstart)
      exact ⟨howner, heq, eq_of_toString_eq hnumber⟩

/-- What is inside something has a point in its path. -/
theorem not_isName_innerPath (owner : Place) (name : String) : ¬ IsName (innerPath owner name) :=
  fun h => absurd (h.2 '.' (by simp [innerPath])) (by decide)

theorem not_isName_directivePlace (name : String) : ¬ IsName (directivePlace name).path :=
  fun h => absurd (h.2 '@' (by simp [directivePlace])) (by decide)

/-- What is inside something is not the definition of a directive. -/
theorem innerPath_ne_directivePlace (owner : Place) {directive : String} (h : IsName directive)
    (name : String) : innerPath owner name ≠ (directivePlace directive).path := by
  intro heq
  have hdot : '.' ∈ (directivePlace directive).path.toList := by simp [← heq, innerPath]
  have hpart : '.' ∈ directive.toList := by simpa [directivePlace] using hdot
  exact absurd (h.2 '.' hpart) (by decide)

end Reading

end SchemaDelta
