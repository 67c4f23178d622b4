import Renaming.Java.Grammar.Declarations
import Renaming.Proofs.Java.Grammar.Statements

/-!
# What the rules for declarations build

The members of a body are rules of its form, and are sound together. Modifiers are taken before it
is known what they modify, and stand in front of all declarations.
-/

namespace Renaming.Java.Phrase

variable {source : SourceText}

/-- What may stand in front of a declaration. -/
def AreModifiers (ms : List Node) : Prop := ∀ m ∈ ms, m.role = none ∧ m.kind = .modifiers

/-- Where a declaration begins. -/
abbrev OpensDeclaration (a : Phrase) : Prop := Opens (fun n => n.kind.isOpening = true) a

theorem opens_modifiers {ms : List Node} (hms : AreModifiers ms) : OpensDeclaration (given ms) :=
  .of_yields (.given fun m hm => by rw [(hms m hm).2]; rfl)

theorem yields_given {ms : List Node} {role : Role} {P : NodeKind → Prop} (hms : AreModifiers ms) :
    Yields (InRole role P) (given ms) :=
  .given fun m hm => inRole_none (hms m hm).1

theorem opens_as {a : Phrase} {role : Role} (h : Yields (fun n => n.kind.isOpening = true) a) :
    OpensDeclaration (as a role) :=
  .of_yields (.as h fun n hn => by cases n; exact hn)

variable {sub : Rule → Phrase} [regular : Regular sub] (hsub : ∀ rule, Builds source [] (sub rule))
include hsub

omit hsub in
theorem opens_plainType {role : Role} : OpensDeclaration (as (sub .plainType) role) :=
  opens_as ((Regular.yields _).mono fun _ h => isOpening_of_isPlainType h.2)

omit hsub regular in
theorem opens_typeParameters {role : Role} : OpensDeclaration (as (typeParameters sub) role) :=
  opens_as (.node fun _ => rfl)

/-! ## Methods and constructors -/

theorem builds_throwsClause : Builds source [] (throwsClause sub) :=
  .node rfl <| .cons .keyword <| .cons (.separated .symbol (hsub _)) .nil

instance : Solid (typeParameters sub) := Solid.node

instance : Solid typeName := Solid.as

theorem builds_methodDeclaration {ms : List Node} (hms : AreModifiers ms) :
    Builds source ms (methodDeclaration sub ms) := by
  refine .shaped rfl (.cons .same <|
    .cons (.optional (.cons (.as rfl (builds_typeParameters hsub)) <|
      .cons (builds_annotations hsub) .nil)) <|
    .cons (.as rfl (hsub _)) <| .cons (.as rfl .identifier) <|
    .cons (.as rfl (builds_formalParameters hsub)) <|
    .cons (.optional (.as rfl (builds_dimensions hsub))) <|
    .cons (.optional (builds_throwsClause hsub)) <|
    .cons (.either (builds_blockBody hsub) .symbol) .nil) fun ns hns =>
      .two rfl (opening_of_opens ?_ hns) (named_of_yields ?_ hns)
  · exact .cons (opens_modifiers hms) <| .cons (.optional (.first opens_typeParameters)) <|
      .first opens_plainType
  · exact .cons (yields_given hms) <|
      .cons (.optional (.cons (yields_other (by simp)) <| .cons yields_annotations .nil)) <|
      .cons (yields_other (by simp)) <| .cons (yields_word rfl) <|
      .cons (yields_other (by simp)) <| .cons (.optional (yields_other (by simp))) <|
      .cons (.optional yields_node) <|
      .cons (.either (yields_other (by simp)) yields_leaf) .nil

omit regular in
theorem builds_constructorBody : Builds source [] (constructorBody sub) :=
  have hcall {front : Phrase} (hfront : Builds source [] front) : Builds source [] (node
      .explicitConstructorCall [front, optional ((typeArguments sub).as .typeArguments),
        constructorWord, (argumentList sub).as .arguments, symbol ";"]) :=
    .node rfl <| .cons hfront <| .cons (.optional (.as rfl (builds_typeArguments hsub))) <|
      .cons (.as rfl (.either (.leaf rfl) (.leaf rfl))) <|
      .cons (.as rfl (builds_argumentList hsub)) <| .cons .symbol .nil
  have hexplicit : Builds source [] (explicitConstructorCall sub) :=
    .either (hcall .nothing) (hcall (.cons (.as rfl (hsub _)) <| .cons .symbol .nil))
  .node rfl <| .cons .symbol <| .cons hexplicit.optional <| .cons (hsub _).many <|
    .cons .symbol .nil

theorem builds_constructorDeclaration {ms : List Node} (hms : AreModifiers ms) :
    Builds source ms (constructorDeclaration sub ms) := by
  refine .shaped rfl (.cons .same <| .cons (.optional (.as rfl (builds_typeParameters hsub))) <|
    .cons (.as rfl builds_name) <| .cons (.as rfl (builds_formalParameters hsub)) <|
    .cons (.optional (builds_throwsClause hsub)) <|
    .cons (.as rfl (builds_constructorBody hsub)) .nil) fun ns hns =>
      .two rfl (opening_of_opens ?_ hns) (named_of_yields ?_ hns)
  · exact .cons (opens_modifiers hms) <| .cons (.optional opens_typeParameters) <|
      .first (opens_as (.leaf fun _ => rfl))
  · exact .cons (yields_given hms) <| .cons (.optional (yields_other (by simp))) <|
      .cons (yields_word rfl) <| .cons (yields_other (by simp)) <|
      .cons (.optional yields_node) <| .cons (yields_other (by simp)) .nil

omit regular in
theorem builds_compactConstructor {ms : List Node} (hms : AreModifiers ms) :
    Builds source ms (compactConstructor sub ms) := by
  refine .shaped rfl (.cons .same <| .cons (.as rfl builds_name) <|
    .cons (builds_blockBody hsub) .nil) fun ns hns =>
      .three rfl (opening_of_opens ?_ hns) (named_of_yields ?_ hns)
        (promise_of_yields (P := fun _ => False) ?_ hns)
  · exact .cons (opens_modifiers hms) <| .first (opens_as (.leaf fun _ => rfl))
  · exact .cons (yields_given hms) <| .cons (yields_word rfl) <|
      .cons (yields_other (by simp)) .nil
  · exact .cons (yields_given hms) <| .cons (yields_other (by simp)) <|
      .cons (yields_other (by simp)) .nil

theorem builds_valueMember {kind : NodeKind} {ms : List Node}
    (hkind : kind = .fieldDeclaration ∨ kind = .constantDeclaration) :
    Builds source ms (valueMember sub kind ms) := by
  have hparts : Builds source ms (sequence [given ms, (sub .plainType).as .type, declarators sub,
      symbol ";"]) :=
    .cons .same <| .cons (.as rfl (hsub _)) <| .cons (builds_declarators hsub) <| .cons .symbol .nil
  have htyped : ∀ ns, Taken (sequence [given ms, (sub .plainType).as .type, declarators sub,
      symbol ";"]) ns → ∃ p ∈ ns.map Node.part, p.role = some .type ∧ p.kind.isType = true := by
    intro ns hns
    obtain ⟨x, y, -, hy, rfl⟩ := taken_cons hns
    obtain ⟨z, w, hz, -, rfl⟩ := taken_cons hy
    obtain ⟨types, htypes, rfl⟩ := taken_as hz
    obtain ⟨t, rfl, -, hplain⟩ := Regular.gives _ _ htypes
    simp only [Output, NodeKind.isPlainType, Bool.and_eq_true] at hplain
    refine ⟨(t.as .type).part, by simp, ?_⟩
    cases t
    exact ⟨rfl, hplain.1⟩
  rcases hkind with rfl | rfl
  · exact .shaped rfl hparts fun ns hns => .one rfl (htyped ns hns)
  · exact .shaped rfl hparts fun ns hns => .one rfl (htyped ns hns)

omit regular in
theorem builds_annotationElement {ms : List Node} (hms : AreModifiers ms) :
    Builds source ms (annotationElement sub ms) := by
  refine .shaped rfl (.cons .same <| .cons (.as rfl (hsub _)) <| .cons (.as rfl .identifier) <|
    .cons .symbol <| .cons .symbol <| .cons (.optional (.as rfl (builds_dimensions hsub))) <|
    .cons (.optional (.cons .keyword <| .cons (.as rfl (hsub _)) .nil)) <| .cons .symbol .nil)
    fun ns hns => .one rfl (named_of_yields ?_ hns)
  exact .cons (yields_given hms) <| .cons (yields_other (by simp)) <|
    .cons (yields_word rfl) <| .cons yields_leaf <| .cons yields_leaf <|
    .cons (.optional (yields_other (by simp))) <|
    .cons (.optional (.cons yields_leaf <| .cons (yields_other (by simp)) .nil)) <|
    .cons yields_leaf .nil

/-! ## Bodies -/

/-- What can be declared in a body builds what the rules inside it build. -/
structure BodyForm.Sound (source : SourceText) (form : BodyForm) : Prop where
  kind : form.kind = .classBody ∨ form.kind = .interfaceBody ∨ form.kind = .annotationTypeBody
  members : ∀ member ∈ form.members, ∀ ms, AreModifiers ms → Builds source ms (member ms)
  initializers : ∀ a ∈ form.initializers, Builds source [] a

theorem sound_classForm : (classForm sub).Sound source where
  kind := .inl rfl
  members := by
    simp only [classForm, List.forall_mem_cons, List.not_mem_nil, false_implies, implies_true,
      and_true]
    exact ⟨fun _ => builds_constructorDeclaration hsub, fun _ => builds_compactConstructor hsub,
      fun _ => builds_methodDeclaration hsub, fun _ _ => builds_valueMember hsub (.inl rfl)⟩
  initializers := by
    simp only [classForm, List.forall_mem_cons, List.not_mem_nil, false_implies, implies_true,
      and_true]
    exact ⟨hsub _, .node rfl <| .cons .keyword <| .cons (hsub _) .nil⟩

theorem sound_interfaceForm : (interfaceForm sub).Sound source where
  kind := .inr (.inl rfl)
  members := by
    simp only [interfaceForm, List.forall_mem_cons, List.not_mem_nil, false_implies, implies_true,
      and_true]
    exact ⟨fun _ => builds_methodDeclaration hsub, fun _ _ => builds_valueMember hsub (.inr rfl)⟩
  initializers := by simp [interfaceForm]

theorem sound_annotationForm : (annotationForm sub).Sound source where
  kind := .inr (.inr rfl)
  members := by
    simp only [annotationForm, List.forall_mem_cons, List.not_mem_nil, false_implies, implies_true,
      and_true]
    exact ⟨fun _ => builds_annotationElement hsub, fun _ _ => builds_valueMember hsub (.inr rfl)⟩
  initializers := by simp [annotationForm]

theorem builds_member {form : BodyForm} (hform : form.Sound source) :
    Builds source [] (member sub form) := by
  refine .or .symbol (.oneOf fun a ha => ?_)
  rcases List.mem_append.1 ha with ha | ha
  · exact hform.initializers a ha
  · simp only [List.mem_cons, List.not_mem_nil, or_false] at ha
    rcases ha with rfl | rfl
    · exact .cons (.ahead _) <| .cons (hsub _) .nil
    · refine .andThen (builds_modifiers hsub) fun ms hms => ?_
      have hmembers : Builds source ms (oneOf (form.members.map (· ms))) := by
        refine .oneOf fun a ha => ?_
        obtain ⟨declaration, hdeclaration, rfl⟩ := List.mem_map.1 ha
        exact hform.members declaration hdeclaration ms (taken_modifiers hms)
      exact .past (fun _ _ _ => notAhead_eq_some) hmembers

omit hsub in
/-- What stands in the body of a class is never the second half of the body of an enum. -/
theorem yields_classMember :
    Yields (fun n => n.kind ≠ .enumBodyDeclarations) (member sub (classForm sub)) := by
  have hnode {kind : NodeKind} {parts : List Phrase} (h : kind ≠ .enumBodyDeclarations) :
      Yields (fun n => n.kind ≠ .enumBodyDeclarations) (node kind parts) := .node fun _ => h
  have hblock : Yields (fun n => n.kind ≠ .enumBodyDeclarations) (sub .block) :=
    (Regular.yields _).mono fun n hn => by
      have hkind : n.kind = .block := hn.2
      simp [hkind]
  have htype : Yields (fun n => n.kind ≠ .enumBodyDeclarations) (sub .typeDeclaration) :=
    (Regular.yields _).mono fun n hn hkind => by
      have htype : n.kind.isTypeDeclaration = true := hn.2
      rw [hkind] at htype
      cases htype
  refine .oneOf ?_
  simp only [classForm, List.cons_append, List.nil_append, List.forall_mem_cons, List.map_cons,
    List.map_nil, List.not_mem_nil, false_implies, implies_true, and_true]
  refine ⟨.leaf fun _ => by simp [Node.leaf, Node.kind], hblock, hnode (by simp),
    .cons .ahead <| .cons htype .nil,
    .andThen fun ms _ => .cons .notAhead <| .cons (.oneOf ?_) .nil⟩
  simp only [List.forall_mem_cons, List.not_mem_nil, false_implies, implies_true, and_true]
  exact ⟨hnode (by simp), hnode (by simp), hnode (by simp), hnode (by simp)⟩

theorem builds_bodyOf {form : BodyForm} (hform : form.Sound source) :
    Builds source [] (bodyOf sub form) := by
  have hparts : Builds source [] (sequence [openBrace, many (member sub form), closeBrace]) :=
    .cons .symbol <| .cons (builds_member hsub hform).many <| .cons .symbol .nil
  unfold bodyOf
  rcases hform.kind with h | h | h
  · rw [h]
    exact .shaped rfl hparts fun ns hns =>
      .one rfl (opening_of_opens (.first opens_leaf) hns)
  · rw [h]
    exact .node rfl hparts
  · rw [h]
    exact .node rfl hparts

theorem builds_classBody : Builds source [] (classBody sub) :=
  builds_bodyOf hsub (sound_classForm hsub)

/-! ## Types -/

theorem builds_superInterfaces : Builds source [] (superInterfaces sub) :=
  .as rfl (.node rfl <| .cons .keyword <| .cons (builds_typeList hsub) .nil)

theorem builds_permits : Builds source [] (permits sub) :=
  .as rfl (.node rfl <| .cons .keyword <| .cons (builds_typeList hsub) .nil)

omit hsub regular in
/-- The name of a type stands after the modifiers and a word, and nothing else is a name. -/
theorem titled_of_taken {ms : List Node} {word : Phrase} {parts : List Phrase} {ns : List Node}
    (hms : AreModifiers ms) (hword : Yields (InRole .name (·.isName = true)) word)
    (hparts : Yields (InRole .name (·.isName = true)) (sequence parts))
    (h : Taken (sequence (given ms :: word :: typeName :: parts)) ns) :
    Promise.titled.Kept (ns.map Node.part) := by
  refine ⟨?_, named_of_yields
    (.cons (yields_given hms) <| .cons hword <| .cons (yields_word rfl) hparts) h⟩
  obtain ⟨x, y, -, hy, rfl⟩ := taken_cons h
  obtain ⟨z, w, -, hw, rfl⟩ := taken_cons hy
  obtain ⟨u, v, hu, -, rfl⟩ := taken_cons hw
  obtain ⟨names, hnames, rfl⟩ := taken_as hu
  obtain ⟨t, -, rfl⟩ := taken_leaf hnames
  exact ⟨((Node.leaf .identifier t).as .name).part, by simp, rfl⟩

theorem builds_classDeclaration {ms : List Node} (hms : AreModifiers ms) :
    Builds source ms (classDeclaration sub ms) := by
  refine .shaped rfl (.cons .same <| .cons .keyword <| .cons (.as rfl .identifier) <|
    .cons (.optional (.as rfl (builds_typeParameters hsub))) <|
    .cons (.optional (.as rfl (.node rfl <| .cons .keyword <| .cons (hsub _) .nil))) <|
    .cons (.optional (builds_superInterfaces hsub)) <| .cons (.optional (builds_permits hsub)) <|
    .cons (.as rfl (builds_classBody hsub)) .nil) fun ns hns =>
      .two rfl (opening_of_opens ?_ hns) (titled_of_taken hms yields_leaf ?_ hns)
  · exact .cons (opens_modifiers hms) (.first opens_leaf)
  · exact .cons (.optional (yields_other (by simp))) <|
      .cons (.optional (yields_other (by simp))) <| .cons (.optional (yields_other (by simp))) <|
      .cons (.optional (yields_other (by simp))) <| .cons (yields_other (by simp)) .nil

theorem builds_interfaceDeclaration {ms : List Node} (hms : AreModifiers ms) :
    Builds source ms (interfaceDeclaration sub ms) := by
  refine .shaped rfl (.cons .same <| .cons .keyword <| .cons (.as rfl .identifier) <|
    .cons (.optional (.as rfl (builds_typeParameters hsub))) <|
    .cons (.optional (.node rfl <| .cons .keyword <| .cons (builds_typeList hsub) .nil)) <|
    .cons (.optional (builds_permits hsub)) <|
    .cons (.as rfl (builds_bodyOf hsub (sound_interfaceForm hsub))) .nil) fun ns hns =>
      .two rfl (opening_of_opens ?_ hns) (titled_of_taken hms yields_leaf ?_ hns)
  · exact .cons (opens_modifiers hms) (.first opens_leaf)
  · exact .cons (.optional (yields_other (by simp))) <| .cons (.optional yields_node) <|
      .cons (.optional (yields_other (by simp))) <| .cons (yields_other (by simp)) .nil

theorem builds_enumConstant : Builds source [] (enumConstant sub) := by
  refine .shaped rfl (.cons (builds_modifiers hsub) <| .cons (.as rfl .identifier) <|
    .cons (.optional (.as rfl (builds_argumentList hsub))) <|
    .cons (.optional (.as rfl (builds_classBody hsub))) .nil) fun ns hns =>
      .two rfl (named_of_yields ?_ hns) ?_
  · exact .cons yields_modifiers <| .cons (yields_word rfl) <|
      .cons (.optional (yields_other (by simp))) <| .cons (.optional (yields_other (by simp))) .nil
  · have hbody : Yields (InRole .body (· = .classBody)) (sequence [modifiers sub, typeName,
        optional ((argumentList sub).as .arguments), optional ((classBody sub).as .body)]) :=
      .cons yields_modifiers <| .cons (yields_other (by simp)) <|
        .cons (.optional (yields_other (by simp))) <|
        .cons (.optional (yields_role (.node fun _ => rfl))) .nil
    exact promise_of_yields hbody hns

theorem builds_enumBody : Builds source [] (enumBody sub) := by
  refine .node rfl <| .cons .symbol <| .cons (.commas (builds_enumConstant hsub)) <|
    .cons (.optional .symbol) <| .cons (.optional (.shaped rfl (.cons .symbol <|
      .cons (builds_member hsub (sound_classForm hsub)).many .nil) fun ns hns =>
        .one rfl fun p hp => ?_)) <| .cons .symbol .nil
  obtain ⟨n, hn, rfl⟩ := List.mem_map.1 hp
  have hparts : Yields (fun n => n.kind ≠ .enumBodyDeclarations)
      (sequence [symbol ";", many (member sub (classForm sub))]) :=
    .cons (.leaf fun _ => by simp [Node.leaf, Node.kind]) <| .cons (.many yields_classMember) .nil
  exact hparts ns hns n hn

theorem builds_enumDeclaration {ms : List Node} (hms : AreModifiers ms) :
    Builds source ms (enumDeclaration sub ms) := by
  refine .shaped rfl (.cons .same <| .cons .keyword <| .cons (.as rfl .identifier) <|
    .cons (.optional (builds_superInterfaces hsub)) <| .cons (.as rfl (builds_enumBody hsub)) .nil)
    fun ns hns => .two rfl (opening_of_opens ?_ hns) (titled_of_taken hms yields_leaf ?_ hns)
  · exact .cons (opens_modifiers hms) (.first opens_leaf)
  · exact .cons (.optional (yields_other (by simp))) <| .cons (yields_other (by simp)) .nil

omit hsub regular in
/-- What the parts of a record are in a role, by its list of components and its body. -/
theorem yields_recordParts {ms : List Node} {role : Role} {P : NodeKind → Prop}
    (hms : AreModifiers ms) (hrole : role ≠ .name ∧ role ≠ .typeParameters ∧ role ≠ .interfaces)
    (hlist : Yields (InRole role P) ((formalParameters sub).as .parameters))
    (hbody : Yields (InRole role P) ((classBody sub).as .body)) :
    Yields (InRole role P) (sequence [given ms, keyword "record", typeName,
      optional ((typeParameters sub).as .typeParameters), (formalParameters sub).as .parameters,
      optional (superInterfaces sub), (classBody sub).as .body]) :=
  .cons (yields_given hms) <| .cons yields_leaf <| .cons (yields_other (Ne.symm hrole.1)) <|
    .cons (.optional (yields_other (Ne.symm hrole.2.1))) <| .cons hlist <|
    .cons (.optional (yields_other (Ne.symm hrole.2.2))) <| .cons hbody .nil

theorem builds_recordDeclaration {ms : List Node} (hms : AreModifiers ms) :
    Builds source ms (recordDeclaration sub ms) := by
  refine .shaped rfl (.cons .same <| .cons .keyword <| .cons (.as rfl .identifier) <|
    .cons (.optional (.as rfl (builds_typeParameters hsub))) <|
    .cons (.as rfl (builds_formalParameters hsub)) <|
    .cons (.optional (builds_superInterfaces hsub)) <|
    .cons (.as rfl (builds_classBody hsub)) .nil) fun ns hns =>
      .four rfl (opening_of_opens ?_ hns) (titled_of_taken hms yields_leaf ?_ hns)
        (promise_of_yields (P := (· = .formalParameters)) (yields_recordParts hms ?_ ?_ ?_) hns)
        (promise_of_yields (P := (· = .classBody)) (yields_recordParts hms ?_ ?_ ?_) hns)
  · exact .cons (opens_modifiers hms) (.first opens_leaf)
  · exact .cons (.optional (yields_other (by simp))) <| .cons (yields_other (by simp)) <|
      .cons (.optional (yields_other (by simp))) <| .cons (yields_other (by simp)) .nil
  · simp
  · exact yields_role (.node fun _ => rfl)
  · exact yields_other (by simp)
  · simp
  · exact yields_other (by simp)
  · exact yields_role (.node fun _ => rfl)

theorem builds_annotationTypeDeclaration {ms : List Node} (hms : AreModifiers ms) :
    Builds source ms (annotationTypeDeclaration sub ms) := by
  refine .shaped rfl (.cons .same <| .cons builds_atInterface <| .cons (.as rfl .identifier) <|
    .cons (.as rfl (builds_bodyOf hsub (sound_annotationForm hsub))) .nil) fun ns hns =>
      .two rfl (opening_of_opens ?_ hns) (titled_of_taken hms (fun ns hns n hn => ?_) ?_ hns)
  · refine .cons (opens_modifiers hms) (.first (.of_yields fun ns hns n hn => ?_))
    obtain ⟨t, rfl⟩ := taken_atInterface hns
    rw [List.mem_singleton.1 hn]
    rfl
  · obtain ⟨t, rfl⟩ := taken_atInterface hns
    rw [List.mem_singleton.1 hn]
    exact inRole_none rfl
  · exact .cons (yields_other (by simp)) .nil

theorem builds_typeDeclaration : Builds source [] (typeDeclaration sub) :=
  .andThen (builds_modifiers hsub) fun ms hms =>
    have hms' : AreModifiers ms := taken_modifiers hms
    .or (builds_classDeclaration hsub hms') <| .or (builds_interfaceDeclaration hsub hms') <|
      .or (builds_enumDeclaration hsub hms') <| .or (builds_recordDeclaration hsub hms') <|
      .or (builds_annotationTypeDeclaration hsub hms') .none

end Renaming.Java.Phrase
