import Renaming.Java.Grammar.Types
import Renaming.Proofs.Java.Comments.Insertion

/-!
# Phrases and places

Where tokens stand matters to a phrase only where two of them are read as one, which must touch.
Two lists of tokens are alike if the second has the tokens of the first where they are after an
insertion, and if tokens touch in the same of these places. Whatever is put together from phrases
takes the same nodes from alike lists, where they are after the insertion.
-/

namespace Renaming.Java

namespace Token

/-- Whether two tokens in a row may be read as one, if they touch. -/
def glues (t u : Token) : Bool :=
  t.isSymbol ">" && (u.isSymbol ">" || u.isSymbol "=") || t.isSymbol "@" && u.isWord "interface" ||
    t.isWord "non" && u.isSymbol "-" || t.isSymbol "-" && u.isWord "sealed"

/-- The same tokens where they are after an insertion. -/
inductive Alike (i : Insertion) : List Token → List Token → Prop where
  | nil : Alike i [] []
  | cons {kind : TokenKind} {text : String} {span : Span} {ts ts' : List Token}
      (htouch : ∀ u ∈ ts.head?, ∀ u' ∈ ts'.head?, glues ⟨kind, text, span⟩ u = true →
        touches ⟨kind, text, span⟩ u = touches ⟨kind, text, i.span span⟩ u')
      (hrest : Alike i ts ts') :
      Alike i (⟨kind, text, span⟩ :: ts) (⟨kind, text, i.span span⟩ :: ts')

variable {i : Insertion}

theorem Alike.length_eq {ts ts' : List Token} (h : Alike i ts ts') : ts.length = ts'.length := by
  induction h with
  | nil => rfl
  | cons _ _ ih => rw [List.length_cons, List.length_cons, ih]

end Token

namespace Node

/-- The same nodes where they are after an insertion. -/
def Alike (i : Insertion) (ns ns' : List Node) : Prop := ns.map (moved i) = ns'

variable {i : Insertion}

namespace Alike

variable {ns ns' ms ms' : List Node} {n n' : Node}

theorem nil : Alike i [] [] := rfl

theorem append (h : Alike i ns ns') (h' : Alike i ms ms') : Alike i (ns ++ ms) (ns' ++ ms') := by
  rw [Alike, List.map_append, h, h']

theorem as (h : Alike i ns ns') (role : Role) :
    Alike i (ns.map (·.as role)) (ns'.map (·.as role)) := by
  rw [Alike, ← h]
  simp [moved_as]

theorem branch (h : Alike i ns ns') (kind : NodeKind) :
    Alike i [.branch kind ns] [.branch kind ns'] := by
  rw [Alike, List.map_singleton, moved_branch, h]

theorem kind_eq (h : Alike i [n] [n']) : n.kind = n'.kind := by
  rw [← List.head_eq_of_cons_eq h, kind_moved]

/-- What is asked of the nodes apart from their places has one answer. -/
theorem all_eq (h : Alike i ns ns') {p : Node → Bool} (hp : ∀ n, p (n.moved i) = p n) :
    ns.all p = ns'.all p := by
  rw [← h]
  simp [List.all_map, Function.comp_def, hp]

theorem any_eq (h : Alike i ns ns') {p : Node → Bool} (hp : ∀ n, p (n.moved i) = p n) :
    ns.any p = ns'.any p := by
  rw [← h]
  simp [List.any_map, Function.comp_def, hp]

/-- Either both lists have one node, or neither has. -/
theorem single_cases (h : Alike i ns ns') :
    (∃ n n', ns = [n] ∧ ns' = [n'] ∧ Alike i [n] [n']) ∨ ∀ n, ns ≠ [n] ∧ ns' ≠ [n] := by
  have hlength : ns.length = ns'.length := by
    simpa using congrArg List.length h
  by_cases hone : ns.length = 1
  · obtain ⟨n, rfl⟩ := List.length_eq_one_iff.1 hone
    obtain ⟨n', rfl⟩ := List.length_eq_one_iff.1 (hlength ▸ hone)
    exact .inl ⟨n, n', rfl, rfl, h⟩
  · refine .inr fun n => ⟨?_, ?_⟩
    · rintro rfl
      exact hone rfl
    · rintro rfl
      exact hone hlength

end Alike

end Node

namespace Phrase

/-- The same outcome where it is after an insertion. -/
inductive Agree (i : Insertion) :
    Option (List Node × List Token) → Option (List Node × List Token) → Prop where
  | none : Agree i none none
  | some {ns ns' : List Node} {ts ts' : List Token} (hnodes : Node.Alike i ns ns')
      (hrest : Token.Alike i ts ts') : Agree i (some (ns, ts)) (some (ns', ts'))

/-- Two phrases that take the same from the same tokens after an insertion. -/
def Alike (i : Insertion) (a b : Phrase) : Prop :=
  ∀ ts ts', Token.Alike i ts ts' → Agree i (a ts) (b ts')

variable {i : Insertion}

/-- One after the other. -/
theorem Agree.bind {x x' : Option (List Node × List Token)}
    {f f' : List Node × List Token → Option (List Node × List Token)} (h : Agree i x x')
    (hf : ∀ ns ns' ts ts', Node.Alike i ns ns' → Token.Alike i ts ts' →
      Agree i (f (ns, ts)) (f' (ns', ts'))) : Agree i (x >>= f) (x' >>= f') := by
  cases h with
  | none => exact .none
  | some hnodes hrest => exact hf _ _ _ _ hnodes hrest

theorem Agree.isSome_eq {x x' : Option (List Node × List Token)} (h : Agree i x x') :
    x.isSome = x'.isSome := by
  cases h <;> rfl

theorem oneOf_append (l l' : List Phrase) :
    oneOf (l ++ l') = either (oneOf l) (oneOf l') := by
  induction l with
  | nil => rfl
  | cons a rest ih =>
    funext ts
    change either a (oneOf (rest ++ l')) ts = _
    rw [ih]
    change either a (either (oneOf rest) (oneOf l')) ts =
      either (either a (oneOf rest)) (oneOf l') ts
    unfold either
    cases a ts <;> rfl

namespace Alike

variable {a a' b b' : Phrase} {parts parts' : List Phrase}

theorem given {ns ns' : List Node} (h : Node.Alike i ns ns') : Alike i (given ns) (given ns') :=
  fun _ _ hts => .some h hts

theorem nothing : Alike i nothing nothing := given .nil

theorem refuse : Alike i refuse refuse := fun _ _ _ => .none

theorem followedBy (ha : Alike i a a') (hb : Alike i b b') :
    Alike i (followedBy a b) (followedBy a' b') := fun _ _ hts =>
  (ha _ _ hts).bind fun _ _ _ _ hns hrest =>
    (hb _ _ hrest).bind fun _ _ _ _ hms hrest => .some (hns.append hms) hrest

theorem nil : Alike i (sequence []) (sequence []) := nothing

theorem cons (ha : Alike i a a') (hparts : Alike i (sequence parts) (sequence parts')) :
    Alike i (sequence (a :: parts)) (sequence (a' :: parts')) :=
  followedBy ha hparts

theorem either (ha : Alike i a a') (hb : Alike i b b') : Alike i (either a b) (either a' b') := by
  intro ts ts' hts
  have htaken := ha ts ts' hts
  unfold Phrase.either
  generalize a ts = x, a' ts' = x' at htaken
  cases htaken with
  | none => exact hb ts ts' hts
  | some hns hrest => exact .some hns hrest

theorem last : Alike i (oneOf []) (oneOf []) := refuse

theorem or (ha : Alike i a a') (hparts : Alike i (oneOf parts) (oneOf parts')) :
    Alike i (oneOf (a :: parts)) (oneOf (a' :: parts')) :=
  either ha hparts

theorem orAll {l l' m m' : List Phrase} (h : Alike i (oneOf l) (oneOf m))
    (h' : Alike i (oneOf l') (oneOf m')) : Alike i (oneOf (l ++ l')) (oneOf (m ++ m')) := by
  rw [oneOf_append, oneOf_append]
  exact either h h'

theorem optional (ha : Alike i a a') : Alike i (optional a) (optional a') := either ha nothing

theorem upTo (ha : Alike i a a') {bound bound' : List Token} (h : bound.length = bound'.length) :
    Alike i (upTo bound a) (upTo bound' a') := by
  induction bound generalizing bound' with
  | nil =>
    rw [List.eq_nil_of_length_eq_zero h.symm]
    exact nothing
  | cons _ bound ih =>
    obtain ⟨_, bound', rfl⟩ := List.exists_cons_of_length_eq_add_one h.symm
    intro ts ts' hts
    have htaken := ha ts ts' hts
    unfold Phrase.upTo
    generalize a ts = x, a' ts' = x' at htaken
    cases htaken with
    | none => exact .some .nil hts
    | some hns hrest =>
      refine (ih (by simpa using h) _ _ hrest).bind fun _ _ _ _ hms hrest => ?_
      exact .some (hns.append hms) hrest

theorem many (ha : Alike i a a') : Alike i (many a) (many a') :=
  fun _ _ hts => ha.upTo hts.length_eq _ _ hts

theorem atLeastOne (ha : Alike i a a') : Alike i (atLeastOne a) (atLeastOne a') :=
  ha.followedBy ha.many

theorem separated (ha : Alike i a a') (hb : Alike i b b') :
    Alike i (separated a b) (separated a' b') :=
  hb.followedBy (ha.followedBy hb).many

theorem ahead (ha : Alike i a a') : Alike i (ahead a) (ahead a') := by
  intro ts ts' hts
  unfold Phrase.ahead
  rw [(ha ts ts' hts).isSome_eq]
  split
  · exact nothing _ _ hts
  · exact .none

theorem notAhead (ha : Alike i a a') : Alike i (notAhead a) (notAhead a') := by
  intro ts ts' hts
  unfold Phrase.notAhead
  rw [(ha ts ts' hts).isSome_eq]
  split
  · exact .none
  · exact nothing _ _ hts

theorem andThen (ha : Alike i a a') {next next' : List Node → Phrase}
    (hnext : ∀ ns ns', Node.Alike i ns ns' → Alike i (next ns) (next' ns')) :
    Alike i (andThen a next) (andThen a' next') := fun _ _ hts =>
  (ha _ _ hts).bind fun _ _ _ _ hns hrest => hnext _ _ hns _ _ hrest

theorem as (ha : Alike i a a') {role : Role} : Alike i (as a role) (as a' role) := fun _ _ hts =>
  (ha _ _ hts).bind fun _ _ _ _ hns hrest => .some (hns.as role) hrest

theorem node (hparts : Alike i (sequence parts) (sequence parts')) {kind : NodeKind} :
    Alike i (node kind parts) (node kind parts') := fun _ _ hts =>
  (hparts _ _ hts).bind fun _ _ _ _ hns hrest => .some (hns.branch kind) hrest

theorem grow {step step' : Node → Phrase}
    (hstep : ∀ n n', Node.Alike i [n] [n'] → Alike i (step n) (step' n'))
    {bound bound' : List Token}
    (h : bound.length = bound'.length) {n n' : Node} (hn : Node.Alike i [n] [n']) :
    Alike i (grow bound step n) (grow bound' step' n') := by
  induction bound generalizing bound' n n' with
  | nil =>
    rw [List.eq_nil_of_length_eq_zero h.symm]
    exact given hn
  | cons _ bound ih =>
    obtain ⟨_, bound', rfl⟩ := List.exists_cons_of_length_eq_add_one h.symm
    intro ts ts' hts
    have htaken := hstep n n' hn ts ts' hts
    unfold Phrase.grow
    generalize step n ts = x, step' n' ts' = x' at htaken
    cases htaken with
    | none => exact given hn _ _ hts
    | @some ns ns' rest rest' hns hrest =>
      rcases hns.single_cases with ⟨m, m', rfl, rfl, hm⟩ | hmany
      · exact ih (by simpa using h) hm _ _ hrest
      · split
        · rename_i heq
          cases heq
          exact absurd rfl (hmany _).1
        · split
          · rename_i heq
            cases heq
            exact absurd rfl (hmany _).2
          · exact given hn _ _ hts

theorem growing (ha : Alike i a a') {step step' : Node → Phrase}
    (hstep : ∀ n n', Node.Alike i [n] [n'] → Alike i (step n) (step' n')) :
    Alike i (growing a step) (growing a' step') := by
  intro ts ts' hts
  refine (ha ts ts' hts).bind fun ns ns' rest rest' hns hrest => ?_
  rcases hns.single_cases with ⟨n, n', rfl, rfl, hn⟩ | hmany
  · exact grow hstep hrest.length_eq hn _ _ hrest
  · split
    · rename_i heq
      cases heq
      exact absurd rfl (hmany _).1
    · split
      · rename_i heq
        cases heq
        exact absurd rfl (hmany _).2
      · exact .none

/-- A leaf, by a test that does not ask where a token stands. -/
theorem leaf {kind : NodeKind} {test : Token → Bool}
    (htest : ∀ kind text span span', test ⟨kind, text, span⟩ = test ⟨kind, text, span'⟩) :
    Alike i (leaf kind test) (leaf kind test) := by
  intro ts ts' hts
  cases hts with
  | nil => exact .none
  | @cons kind' text span ts ts' _ hrest =>
    unfold Phrase.leaf
    dsimp only
    rw [htest kind' text span (i.span span)]
    split
    · exact .some rfl hrest
    · exact .none

theorem symbol {text : String} : Alike i (symbol text) (symbol text) := leaf fun _ _ _ _ => rfl

theorem keyword {text : String} : Alike i (keyword text) (keyword text) := leaf fun _ _ _ _ => rfl

theorem identifier : Alike i identifier identifier := leaf fun _ _ _ _ => rfl

theorem commas (ha : Alike i a a') : Alike i (commas a) (commas a') :=
  (symbol.separated ha).optional

theorem atWord {words : List String} : Alike i (atWord words) (atWord words) :=
  (leaf fun _ _ _ _ => rfl).ahead

theorem atSymbol {symbols : List String} : Alike i (atSymbol symbols) (atSymbol symbols) :=
  (leaf fun _ _ _ _ => rfl).ahead

/-- A phrase on either side of a test that has one answer. -/
theorem ite {p q : Prop} [Decidable p] [Decidable q] (h : p ↔ q) (ha : Alike i a a')
    (hb : Alike i b b') : Alike i (if p then a else b) (if q then a' else b') := by
  by_cases hp : p
  · rw [if_pos hp, if_pos (h.1 hp)]
    exact ha
  · rw [if_neg hp, if_neg (fun hq => hp (h.2 hq))]
    exact hb

end Alike

end Phrase

end Renaming.Java
