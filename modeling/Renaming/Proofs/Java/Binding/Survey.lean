import Renaming.Java.Binding.Declarations
import Renaming.Proofs.Java.Binding.Locals
import Renaming.Proofs.Java.Hierarchy
import Renaming.Proofs.Java.TypeUse

/-!
# What a walk may report

A survey fixes what a walk is over: the context, the nodes that it comes to, and the types, fields
and methods that it may name. A finding pairs a node with the signature of what the node names. A
survey covers its context if whatever is looked up or declared there may be named. Of nodes that are
not known to be sound, a survey only tells where what they name is found.
-/

namespace Renaming.Java

structure Survey where
  ctx : BindingContext
  /-- The nodes that are walked over. -/
  T : Node → Prop
  /-- Whether these nodes are sound. -/
  orderly : Prop
  type (binary : String) : Prop
  field (owner name : String) : Prop
  method (owner : String) (m : MethodDeclaration) : Prop

namespace Survey

variable (S : Survey)

def source : SourceText := S.ctx.unit.unit.source

def text (n : Node) : String := S.source.text n

/-- The type that starts at a node. -/
def Begins (n : Node) (binary : String) : Prop := S.ctx.unit.types.get? n.start = some binary

/-- The method that is declared at a node. -/
def Declares (n : Node) (owner : String) (m : MethodDeclaration) : Prop :=
  S.ctx.unit.methods.get? n.start = some (owner, m)

/-- The signature of a method that has the given name. -/
def Names (name : String) (s : Signature) : Prop :=
  ∃ owner m, S.method owner m ∧ m.name = name ∧ s = m.signature owner

/-- A method, or the initializers of a type. -/
def Host (s : Signature) : Prop :=
  (∃ owner m, S.method owner m ∧ s = m.signature owner) ∨
    ∃ binary isStatic, S.type binary ∧ s = Binding.initializerSignature binary isStatic

def Parameter (s : Signature) : Prop :=
  ∃ owner m i, S.method owner m ∧ i < m.descriptor.params.length ∧
    s = .ofParameter (m.signature owner) i

/-- What is reported: the symbols of a survey, at nodes that have their names. -/
inductive Finding : Occurrence → Prop where
  | type {span : Span} {binary : String} (hspan : Spelled S.orderly S.T span)
      (htype : S.type binary) :
      Finding ⟨span, .ofType binary, .type, []⟩
  | field {n : Node} {owner : String} {fallbacks : List Signature} (hn : S.T n)
      (hname : S.orderly → n.kind.isName = true) (hfield : S.field owner (S.text n)) :
      Finding ⟨n.span, .ofField owner (S.text n), .field, fallbacks⟩
  | method {n : Node} {signature : Signature} {fallbacks : List Signature} (hn : S.T n)
      (hname : S.orderly → n.kind.isName = true)
      (hmethods : S.orderly → ∀ s ∈ signature :: fallbacks, S.Names (S.text n) s) :
      Finding ⟨n.span, signature, .method, fallbacks⟩
  | parameter {n : Node} {signature : Signature} (hn : S.T n)
      (hparameter : S.orderly → S.Parameter signature) :
      Finding ⟨n.span, signature, .parameter, []⟩
  | localVariable {n : Node} {host : Signature} {ordinal : Nat} (hn : S.T n)
      (hname : S.orderly → n.kind.isName = true) (hhost : S.Host host) :
      Finding ⟨n.span, .ofLocal host (S.text n) ordinal, .localVariable, []⟩

/-- The components of a record. -/
def components (n : Node) : Option Node :=
  if n.kind == .recordDeclaration then n.child? .parameters else none

/-- The names of the components of a record. -/
def componentNames (components : Option Node) : List Node :=
  ((components.map Node.namedChildren).getD []).filterMap (·.child? .name)

/-- The bodies of a type, with the components that are in scope there. The members of an enum may
stand in a second body, after its constants. -/
inductive Body : String → Option Node → Node → Prop where
  | named {n body : Node} {binary : String} (hn : S.T n) (hkind : n.kind.isTypeDeclaration = true)
      (hbegins : S.Begins n binary) (hbody : n.child? .body = some body) :
      Body binary (components n) body
  | anonymous {body : Node} {binary : String} (hbody : S.T body)
      (hkind : S.orderly → body.kind = .classBody) (hbegins : S.Begins body binary) :
      Body binary none body
  | later {n body : Node} {binary : String} {components : Option Node}
      (hbody : Body binary components body) (hn : n ∈ body.namedChildren)
      (hkind : n.kind = .enumBodyDeclarations) : Body binary none n

/-- A survey that names what can be looked up and what is declared. -/
class Covers : Prop where
  descends : Descends S.T
  sound : S.orderly → ∀ {n : Node}, S.T n → n.Sound S.source
  memberType : ∀ {owner name binary : String},
    S.ctx.index.memberType? owner name = some binary → S.type binary
  topLevel : ∀ {package name binary : String},
    S.ctx.index.topLevel? package name = some binary → S.type binary
  imported : ∀ {name binary : String},
    S.ctx.unit.header.imports.single.get? name = some binary → S.type binary
  field : ∀ {owner : String} {d : TypeDeclaration} {f : FieldDeclaration},
    S.ctx.index.get? owner = some d → f ∈ d.fields → S.field owner f.name
  method : ∀ {owner : String} {d : TypeDeclaration} {m : MethodDeclaration},
    S.ctx.index.get? owner = some d → m ∈ d.methods → S.method owner m
  begins : ∀ {n : Node} {binary : String}, S.T n → S.Begins n binary → S.type binary
  component : ∀ {n p name : Node} {binary : String}, S.T n → n.kind = .recordDeclaration →
    S.Begins n binary → p ∈ ((n.child? .parameters).map Node.namedChildren).getD [] →
      p.child? .name = some name → S.field binary (S.text name)
  value : ∀ {body n d name : Node} {components : Option Node} {binary : String},
    S.Body binary components body → n ∈ body.namedChildren →
      n.kind = .fieldDeclaration ∨ n.kind = .constantDeclaration → d ∈ n.childrenIn .declarator →
        d.child? .name = some name → S.field binary (S.text name)
  constant : ∀ {body n name : Node} {components : Option Node} {binary : String},
    S.Body binary components body → n ∈ body.namedChildren → n.kind = .enumConstant →
      n.child? .name = some name → S.field binary (S.text name)
  owner : ∀ {n : Node} {owner : String} {m : MethodDeclaration}, S.Declares n owner m → S.type owner
  declared : ∀ {n : Node} {owner : String} {m : MethodDeclaration}, S.Declares n owner m →
    S.method owner m
  named : S.orderly → ∀ {n name : Node} {owner : String} {m : MethodDeclaration}, S.T n →
    n.kind = .methodDeclaration → S.Declares n owner m → n.child? .name = some name →
      m.name = S.text name
  constructed : S.orderly → ∀ {n : Node} {owner : String} {m : MethodDeclaration}, S.T n →
    n.kind = .constructorDeclaration ∨ n.kind = .compactConstructor → S.Declares n owner m →
      m.isConstructor = true
  listed : S.orderly → ∀ {n list : Node} {owner : String} {m : MethodDeclaration}, S.T n →
    n.kind = .methodDeclaration ∨ n.kind = .constructorDeclaration → S.Declares n owner m →
      n.child? .parameters = some list →
        (list.namedChildren.filterMap Binding.parameterParts?).length ≤
          m.descriptor.params.length
  implicit : S.orderly → ∀ {body n : Node} {components : Option Node} {binary owner : String}
    {m : MethodDeclaration}, S.Body binary components body → n ∈ body.namedChildren →
      n.kind = .compactConstructor → S.Declares n owner m →
        (componentNames components).length ≤ m.descriptor.params.length

variable {S} [S.Covers]

instance : Descends S.T := Covers.descends

theorem spelled {n : Node} (hn : S.T n) : Spelled S.orderly S.T n.span :=
  .node hn fun ho => Covers.sound ho hn

/-- Names are free of everything that signatures are put together with. -/
theorem notMem_text (ho : S.orderly) {n : Node} (hn : S.T n) (hkind : n.kind.isName = true)
    {c : Char} (hc : Lexeme.continuesName c = false) : c ∉ (S.text n).toList := by
  intro hmem
  rw [(Covers.sound ho hn).holds.name hkind c hmem] at hc
  cases hc

/-- Whatever is found is spelled by nodes that are walked over. -/
theorem Finding.spelled {o : Occurrence} (h : S.Finding o) : Spelled S.orderly S.T o.span := by
  cases h with
  | type hspan => exact hspan
  | field hn => exact Survey.spelled hn
  | method hn => exact Survey.spelled hn
  | parameter hn => exact Survey.spelled hn
  | localVariable hn => exact Survey.spelled hn

theorem Body.in {binary : String} {components : Option Node} {body : Node}
    (h : S.Body binary components body) : S.T body := by
  induction h with
  | named hn _ _ hbody => exact Descends.child hn _ _ hbody
  | anonymous hbody _ _ => exact hbody
  | later _ hn _ ih => exact Descends.named ih _ hn

theorem Body.type {binary : String} {components : Option Node} {body : Node}
    (h : S.Body binary components body) : S.type binary := by
  induction h with
  | named hn _ hbegins _ => exact Covers.begins hn hbegins
  | anonymous hbody _ hbegins => exact Covers.begins hbody hbegins
  | later _ _ _ ih => exact ih

theorem names_of_findMethods {owner type name : String} {m : MethodDeclaration}
    (h : (type, m) ∈ S.ctx.index.findMethods owner name) : S.Names name (m.signature type) := by
  obtain ⟨d, hd, hm, hname⟩ := TypeIndex.findMethods_spec h
  exact ⟨type, m, Covers.method hd hm, hname, rfl⟩

theorem names_of_overridden {owner : String} {m : MethodDeclaration} {s : Signature}
    (h : s ∈ S.ctx.index.overridden owner m) : S.Names m.name s := by
  obtain ⟨type, d, n, hd, hn, hname, rfl⟩ := TypeIndex.overridden_spec h
  exact ⟨type, n, Covers.method hd hn, hname, rfl⟩

theorem field_of_findField? {owner type name : String} {f : FieldDeclaration}
    (h : S.ctx.index.findField? owner name = some (type, f)) : S.field type name := by
  obtain ⟨d, hd, hf, rfl⟩ := TypeIndex.findField?_spec h
  exact Covers.field hd hf

/-! ## States -/

/-- Variables that can be reported: those of a method have a signature of their own name. -/
def VariableKept (S : Survey) (v : Variable) : Prop :=
  ∀ s ∈ v.signature, v.kind = .parameter ∧ (S.orderly → S.Parameter s) ∨
    v.kind = .localVariable ∧ ∃ host ordinal, S.Host host ∧ s = .ofLocal host v.name ordinal

def FrameKept (S : Survey) : VariableFrame → Prop
  | .block declared => ∀ v ∈ declared, S.VariableKept v
  | .classBody _ => True

def TypeFrameKept (S : Survey) : TypeFrame → Prop
  | .block types => ∀ e ∈ types, S.type e.2
  | _ => True

/-- What a walk keeps: all that is in scope can be reported, and all that was reported is found. -/
structure Kept (S : Survey) (s : BindingState) : Prop where
  header : s.scope.header = S.ctx.unit.header
  types : ∀ frame ∈ s.scope.frames, S.TypeFrameKept frame
  vars : ∀ frame ∈ s.frames, S.FrameKept frame
  methods : ∀ method ∈ s.methods, ∀ signature ∈ method, S.Host signature
  occurrences : ∀ o ∈ s.occurrences, S.Finding o

/-- What a name that is looked up as a variable stands for. -/
def RefKept (S : Survey) (name : String) : Binding.VariableRef → Prop
  | .variable v => S.VariableKept v ∧ v.name = name
  | .field owner _ => S.field owner name

namespace Kept

variable {s : BindingState}

theorem leads (h : S.Kept s) : TypeContext.Leads S.type ⟨S.ctx.index, S.source, s.scope⟩ where
  simple := by
    intro name binary hfound
    rcases Option.or_eq_some_iff.1 hfound with hframe | ⟨-, hglobal⟩
    · obtain ⟨frame, hmem, hfind⟩ := List.exists_of_findSome?_eq_some hframe
      have hkept := h.types frame hmem
      cases frame with
      | classBody owner =>
        obtain ⟨member, hmember, heq⟩ := Option.map_eq_some_iff.1 hfind
        cases heq
        exact Covers.memberType hmember
      | typeVars params => simp [TypeFrame.find?] at hfind
      | block types =>
        obtain ⟨found, hlookup, heq⟩ := Option.map_eq_some_iff.1 hfind
        cases heq
        obtain ⟨_, _, htypes, -⟩ := List.lookup_eq_some_iff.1 hlookup
        exact hkept (name, binary) (by simp [htypes])
    · obtain ⟨found, hfound, heq⟩ := Option.map_eq_some_iff.1 hglobal
      cases heq
      dsimp only at hfound
      rw [h.header] at hfound
      simp only [TypeScope.resolveGlobal?, Option.or_eq_some_iff] at hfound
      rcases hfound with ((hsingle | ⟨-, htop⟩) | ⟨-, hdemand⟩) | ⟨-, hlang⟩
      · exact Covers.imported hsingle
      · exact Covers.topLevel htop
      · obtain ⟨entry, -, hentry⟩ := List.exists_of_findSome?_eq_some hdemand
        cases entry with
        | package package => exact Covers.topLevel hentry
        | type owner => exact Covers.memberType hentry
      · exact Covers.topLevel hlang
  member := Covers.memberType
  topLevel := Covers.topLevel

theorem variableNamed (h : S.Kept s) {name : String} {v : Binding.VariableRef}
    (hv : (s.frames.findSome? (Binding.VariableFrame.find? S.ctx.index name)).or
      (Binding.importedField? S.ctx.index s.scope.header.imports name) = some v) :
    S.RefKept name v := by
  rcases Option.or_eq_some_iff.1 hv with hframe | ⟨-, himported⟩
  · obtain ⟨frame, hmem, hfind⟩ := List.exists_of_findSome?_eq_some hframe
    have hkept := h.vars frame hmem
    cases frame with
    | block declared =>
      obtain ⟨found, hfound, heq⟩ := Option.map_eq_some_iff.1 hfind
      cases heq
      have hname := List.find?_some hfound
      have hdeclared := List.mem_of_find?_eq_some hfound
      exact ⟨hkept found hdeclared, by simpa using hname⟩
    | classBody binary =>
      obtain ⟨⟨owner, f⟩, hfound, heq⟩ := Option.map_eq_some_iff.1 hfind
      cases heq
      exact field_of_findField? hfound
  · obtain ⟨owner, -, hfound⟩ := List.exists_of_findSome?_eq_some himported
    obtain ⟨⟨type, f⟩, hfield, hstatic⟩ := Option.bind_eq_some_iff.1 hfound
    dsimp only at hstatic
    split at hstatic
    · cases hstatic
      exact field_of_findField? hfield
    · cases hstatic

end Kept

end Survey

end Renaming.Java
