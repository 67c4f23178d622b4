import Renaming.Java.Grammar.Phrase
import Renaming.Proofs.Java.Tree

/-!
# What phrases build

A phrase makes leaves of the tokens in front of it and branches of the nodes that it was given, so
that what it gives lies where the tokens lay, one node after the other. Each way to put phrases
together keeps this.
-/

namespace Renaming.Java

namespace Phrase

variable {source : SourceText}

/-- What a phrase may give. -/
def Taken (a : Phrase) (ns : List Node) : Prop := ∃ ts rest, a ts = some (ns, rest)

/-- A phrase that lays nodes behind those that it is given in front. -/
def Builds (source : SourceText) (front : List Node) (a : Phrase) : Prop :=
  ∀ ts ns rest, a ts = some (ns, rest) → ∀ p q, Node.Laid source p front q →
    Token.Row source q ts → ∃ r, Node.Laid source p ns r ∧ Token.Row source r rest

/-- A phrase that gives something whenever it does not refuse. -/
class Solid (a : Phrase) : Prop where
  ne_nil : ∀ {ns}, Taken a ns → ns ≠ []

/-! ## What may be given -/

section Taken

variable {a b : Phrase} {parts : List Phrase} {ns : List Node}

theorem taken_given {nodes : List Node} (h : Taken (given nodes) ns) : ns = nodes := by
  obtain ⟨ts, rest, h⟩ := h
  cases h
  rfl

theorem taken_nothing (h : Taken nothing ns) : ns = [] := taken_given h

theorem taken_refuse (h : Taken refuse ns) : False := by
  obtain ⟨ts, rest, h⟩ := h
  cases h

theorem taken_followedBy (h : Taken (followedBy a b) ns) :
    ∃ x y, Taken a x ∧ Taken b y ∧ ns = x ++ y := by
  obtain ⟨ts, rest, h⟩ := h
  obtain ⟨⟨x, mid⟩, hx, h⟩ := Option.bind_eq_some_iff.1 h
  obtain ⟨⟨y, last⟩, hy, heq⟩ := Option.bind_eq_some_iff.1 h
  cases heq
  exact ⟨x, y, ⟨_, _, hx⟩, ⟨_, _, hy⟩, rfl⟩

theorem taken_cons (h : Taken (sequence (a :: parts)) ns) :
    ∃ x y, Taken a x ∧ Taken (sequence parts) y ∧ ns = x ++ y :=
  taken_followedBy h

theorem taken_either (h : Taken (either a b) ns) : Taken a ns ∨ Taken b ns := by
  obtain ⟨ts, rest, h⟩ := h
  unfold either at h
  split at h
  · rename_i hfirst
    cases h
    exact .inl ⟨_, _, hfirst⟩
  · exact .inr ⟨_, _, h⟩

theorem taken_oneOf (h : Taken (oneOf parts) ns) : ∃ a ∈ parts, Taken a ns := by
  induction parts with
  | nil => exact (taken_refuse h).elim
  | cons a rest ih =>
    rcases taken_either h with h | h
    · exact ⟨a, by simp, h⟩
    · obtain ⟨b, hb, h⟩ := ih h
      exact ⟨b, by simp [hb], h⟩

theorem taken_optional (h : Taken (optional a) ns) : Taken a ns ∨ ns = [] :=
  (taken_either h).imp_right taken_nothing

theorem taken_upTo {bound : List Token} (h : Taken (upTo bound a) ns) :
    ∃ rows : List (List Node), (∀ x ∈ rows, Taken a x) ∧ ns = rows.flatten := by
  induction bound generalizing ns with
  | nil => exact ⟨[], by simp, taken_nothing h⟩
  | cons _ bound ih =>
    obtain ⟨ts, rest, h⟩ := h
    unfold upTo at h
    split at h
    · cases h
      exact ⟨[], by simp, rfl⟩
    · rename_i x mid hx
      obtain ⟨⟨y, last⟩, hy, heq⟩ := Option.bind_eq_some_iff.1 h
      obtain ⟨rows, hrows, rfl⟩ := ih ⟨_, _, hy⟩
      cases heq
      exact ⟨x :: rows, List.forall_mem_cons.2 ⟨⟨_, _, hx⟩, hrows⟩, rfl⟩

theorem taken_many (h : Taken (many a) ns) :
    ∃ rows : List (List Node), (∀ x ∈ rows, Taken a x) ∧ ns = rows.flatten := by
  obtain ⟨ts, rest, h⟩ := h
  exact taken_upTo ⟨_, _, h⟩

theorem taken_ahead (h : Taken (ahead a) ns) : ns = [] := by
  obtain ⟨ts, rest, h⟩ := h
  unfold ahead at h
  split at h
  · exact taken_nothing ⟨_, _, h⟩
  · cases h

theorem notAhead_eq_some {ts rest : List Token} (h : notAhead a ts = some (ns, rest)) :
    ns = [] ∧ rest = ts := by
  unfold notAhead at h
  split at h
  · cases h
  · cases h
    exact ⟨rfl, rfl⟩

theorem taken_notAhead (h : Taken (notAhead a) ns) : ns = [] := by
  obtain ⟨ts, rest, h⟩ := h
  exact (notAhead_eq_some h).1

theorem taken_andThen {next : List Node → Phrase} (h : Taken (andThen a next) ns) :
    ∃ x, Taken a x ∧ Taken (next x) ns := by
  obtain ⟨ts, rest, h⟩ := h
  obtain ⟨⟨x, mid⟩, hx, h⟩ := Option.bind_eq_some_iff.1 h
  exact ⟨x, ⟨_, _, hx⟩, ⟨_, _, h⟩⟩

theorem taken_as {role : Role} (h : Taken (as a role) ns) :
    ∃ x, Taken a x ∧ ns = x.map (·.as role) := by
  obtain ⟨ts, rest, h⟩ := h
  obtain ⟨⟨x, mid⟩, hx, heq⟩ := Option.bind_eq_some_iff.1 h
  cases heq
  exact ⟨x, ⟨_, _, hx⟩, rfl⟩

theorem taken_node {kind : NodeKind} (h : Taken (node kind parts) ns) :
    ∃ x, Taken (sequence parts) x ∧ ns = [.branch kind x] := by
  obtain ⟨ts, rest, h⟩ := h
  obtain ⟨⟨x, mid⟩, hx, heq⟩ := Option.bind_eq_some_iff.1 h
  cases heq
  exact ⟨x, ⟨_, _, hx⟩, rfl⟩

theorem taken_leaf {kind : NodeKind} {test : Token → Bool} (h : Taken (leaf kind test) ns) :
    ∃ t, test t = true ∧ ns = [.leaf kind t] := by
  obtain ⟨ts, rest, h⟩ := h
  cases ts with
  | nil => cases h
  | cons t ts =>
    simp only [leaf] at h
    split at h
    · rename_i ht
      cases h
      exact ⟨t, ht, rfl⟩
    · cases h

/-- What grows is one node, and it keeps what each step keeps. -/
theorem taken_growing {step : Node → Phrase} {K : Node → Prop} (hfirst : ∀ n, Taken a [n] → K n)
    (hstep : ∀ n m, K n → Taken (step n) [m] → K m) (h : Taken (growing a step) ns) :
    ∃ n, ns = [n] ∧ K n := by
  have hgrow (bound : List Token) : ∀ n, K n → ∀ ns, Taken (grow bound step n) ns →
      ∃ m, ns = [m] ∧ K m := by
    induction bound with
    | nil => exact fun n hn ns hns => ⟨n, taken_given hns, hn⟩
    | cons _ bound ih =>
      intro n hn ns hns
      obtain ⟨ts, rest, hns⟩ := hns
      unfold grow at hns
      split at hns
      · rename_i m mid hm
        exact ih m (hstep n m hn ⟨_, _, hm⟩) ns ⟨_, _, hns⟩
      · exact ⟨n, taken_given ⟨_, _, hns⟩, hn⟩
  obtain ⟨ts, rest, h⟩ := h
  obtain ⟨⟨x, mid⟩, hx, h⟩ := Option.bind_eq_some_iff.1 h
  split at h
  · rename_i n rest' heq
    cases heq
    exact hgrow _ n (hfirst n ⟨_, _, hx⟩) ns ⟨_, _, h⟩
  · cases h

end Taken

/-! ## What is never empty -/

namespace Solid

variable {a b : Phrase} {parts : List Phrase}

theorem of_ne_nil {nodes : List Node} (h : nodes ≠ []) : Solid (given nodes) where
  ne_nil hns := by
    rw [taken_given hns]
    exact h

instance leaf {kind : NodeKind} {test : Token → Bool} : Solid (leaf kind test) where
  ne_nil h := by
    obtain ⟨t, -, rfl⟩ := taken_leaf h
    simp

instance given {n : Node} {ns : List Node} : Solid (given (n :: ns)) where
  ne_nil h := by
    rw [taken_given h]
    simp

instance symbol {text : String} : Solid (symbol text) := leaf

instance closeBrace : Solid closeBrace := symbol

instance keyword {text : String} : Solid (keyword text) := leaf

instance identifier : Solid identifier := leaf

instance node {kind : NodeKind} : Solid (node kind parts) where
  ne_nil h := by
    obtain ⟨x, -, rfl⟩ := taken_node h
    simp

instance as [Solid a] {role : Role} : Solid (as a role) where
  ne_nil h := by
    obtain ⟨x, hx, rfl⟩ := taken_as h
    simpa using ne_nil hx

instance left [Solid a] : Solid (sequence (a :: parts)) where
  ne_nil h := by
    obtain ⟨x, y, hx, -, rfl⟩ := taken_cons h
    simp [ne_nil hx]

instance right [Solid (sequence parts)] : Solid (sequence (a :: parts)) where
  ne_nil h := by
    obtain ⟨x, y, -, hy, rfl⟩ := taken_cons h
    simp [ne_nil hy]

instance either [Solid a] [Solid b] : Solid (either a b) where
  ne_nil h := by
    rcases taken_either h with h | h
    · exact ne_nil h
    · exact ne_nil h

instance separated [Solid b] : Solid (separated a b) where
  ne_nil h := by
    obtain ⟨x, y, hx, -, rfl⟩ := taken_followedBy h
    simp [ne_nil hx]

instance atLeastOne [Solid a] : Solid (atLeastOne a) where
  ne_nil h := by
    obtain ⟨x, y, hx, -, rfl⟩ := taken_followedBy h
    simp [ne_nil hx]

instance growing {step : Node → Phrase} : Solid (growing a step) where
  ne_nil h := by
    obtain ⟨n, rfl, -⟩ :=
      taken_growing (K := fun _ => True) (fun _ _ => trivial) (fun _ _ _ _ => trivial) h
    simp

end Solid

/-! ## What can be seen of what is given -/

/-- A phrase that gives nothing but nodes with `P`. -/
def Yields (P : Node → Prop) (a : Phrase) : Prop := ∀ ns, Taken a ns → ∀ n ∈ ns, P n

namespace Yields

variable {P Q : Node → Prop} {a b : Phrase} {parts : List Phrase}

theorem mono (h : Yields P a) (himp : ∀ n, P n → Q n) : Yields Q a :=
  fun ns hns n hn => himp n (h ns hns n hn)

theorem given {nodes : List Node} (h : ∀ n ∈ nodes, P n) : Yields P (given nodes) := by
  intro ns hns
  rw [taken_given hns]
  exact h

theorem nil : Yields P (sequence []) := given (by simp)

theorem followedBy (ha : Yields P a) (hb : Yields P b) : Yields P (followedBy a b) := by
  intro ns hns n hn
  obtain ⟨x, y, hx, hy, rfl⟩ := taken_followedBy hns
  rcases List.mem_append.1 hn with hn | hn
  · exact ha x hx n hn
  · exact hb y hy n hn

theorem cons (ha : Yields P a) (hrest : Yields P (sequence parts)) :
    Yields P (sequence (a :: parts)) :=
  ha.followedBy hrest

theorem either (ha : Yields P a) (hb : Yields P b) : Yields P (either a b) := by
  intro ns hns
  rcases taken_either hns with hns | hns
  · exact ha ns hns
  · exact hb ns hns

theorem oneOf (h : ∀ a ∈ parts, Yields P a) : Yields P (oneOf parts) := by
  intro ns hns
  obtain ⟨a, ha, hns⟩ := taken_oneOf hns
  exact h a ha ns hns

theorem optional (ha : Yields P a) : Yields P (optional a) := ha.either nil

theorem many (ha : Yields P a) : Yields P (many a) := by
  intro ns hns n hn
  obtain ⟨rows, hrows, rfl⟩ := taken_many hns
  obtain ⟨x, hx, hn⟩ := List.mem_flatten.1 hn
  exact ha x (hrows x hx) n hn

theorem atLeastOne (ha : Yields P a) : Yields P (atLeastOne a) := ha.followedBy ha.many

theorem separated (ha : Yields P a) (hb : Yields P b) : Yields P (separated a b) :=
  hb.followedBy (ha.followedBy hb).many

theorem ahead : Yields P (ahead a) := by
  intro ns hns
  rw [taken_ahead hns]
  simp

theorem notAhead : Yields P (notAhead a) := by
  intro ns hns
  rw [taken_notAhead hns]
  simp

theorem andThen {next : List Node → Phrase} (h : ∀ x, Taken a x → Yields P (next x)) :
    Yields P (andThen a next) := by
  intro ns hns
  obtain ⟨x, hx, hns⟩ := taken_andThen hns
  exact h x hx ns hns

theorem as {role : Role} (ha : Yields Q a) (h : ∀ n, Q n → P (n.as role)) :
    Yields P (as a role) := by
  intro ns hns n hn
  obtain ⟨x, hx, rfl⟩ := taken_as hns
  obtain ⟨m, hm, rfl⟩ := List.mem_map.1 hn
  exact h m (ha x hx m hm)

theorem node {kind : NodeKind} (h : ∀ ns, P (.branch kind ns)) : Yields P (node kind parts) := by
  intro ns hns
  obtain ⟨x, -, rfl⟩ := taken_node hns
  simpa using h x

theorem leaf {kind : NodeKind} {test : Token → Bool} (h : ∀ t, P (.leaf kind t)) :
    Yields P (leaf kind test) := by
  intro ns hns
  obtain ⟨t, -, rfl⟩ := taken_leaf hns
  simpa using h t

end Yields

/-- A phrase that gives a single node, which has `P`. -/
def Gives (P : Node → Prop) (a : Phrase) : Prop := ∀ ns, Taken a ns → ∃ n, ns = [n] ∧ P n

namespace Gives

variable {P : Node → Prop} {a b : Phrase} {parts : List Phrase}

theorem yields (h : Gives P a) : Yields P a := by
  intro ns hns
  obtain ⟨n, rfl, hn⟩ := h ns hns
  simpa using hn

theorem solid (h : Gives P a) : Solid a where
  ne_nil hns := by
    obtain ⟨n, rfl, -⟩ := h _ hns
    simp

theorem refuse : Gives P refuse := fun _ hns => (taken_refuse hns).elim

theorem node {kind : NodeKind} (h : ∀ ns, P (.branch kind ns)) : Gives P (node kind parts) := by
  intro ns hns
  obtain ⟨x, -, rfl⟩ := taken_node hns
  exact ⟨_, rfl, h x⟩

theorem leaf {kind : NodeKind} {test : Token → Bool} (h : ∀ t, P (.leaf kind t)) :
    Gives P (leaf kind test) := by
  intro ns hns
  obtain ⟨t, -, rfl⟩ := taken_leaf hns
  exact ⟨_, rfl, h t⟩

theorem either (ha : Gives P a) (hb : Gives P b) : Gives P (either a b) := by
  intro ns hns
  rcases taken_either hns with hns | hns
  · exact ha ns hns
  · exact hb ns hns

theorem none : Gives P (oneOf []) := refuse

theorem or (ha : Gives P a) (hrest : Gives P (oneOf parts)) : Gives P (oneOf (a :: parts)) :=
  ha.either hrest

/-- What is asked for in front of a phrase, or behind it, gives nothing. -/
theorem behind (hb : ∀ ns, Taken b ns → ns = []) (ha : Gives P a) :
    Gives P (sequence [b, a]) := by
  intro ns hns
  obtain ⟨x, y, hx, hy, rfl⟩ := taken_cons hns
  obtain ⟨x', y', hx', hy', rfl⟩ := taken_cons hy
  rw [hb x hx, taken_nothing hy', List.append_nil]
  exact ha x' hx'

theorem before (hb : ∀ ns, Taken b ns → ns = []) (ha : Gives P a) :
    Gives P (sequence [a, b]) := by
  intro ns hns
  obtain ⟨x, y, hx, hy, rfl⟩ := taken_cons hns
  obtain ⟨x', y', hx', hy', rfl⟩ := taken_cons hy
  rw [hb x' hx', taken_nothing hy', List.append_nil, List.append_nil]
  exact ha x hx

theorem andThen {next : List Node → Phrase} (h : ∀ x, Taken a x → Gives P (next x)) :
    Gives P (andThen a next) := by
  intro ns hns
  obtain ⟨x, hx, hns⟩ := taken_andThen hns
  exact h x hx ns hns

/-- What was given before, given again. -/
theorem again {nodes : List Node} (ha : Gives P a) (h : Taken a nodes) : Gives P (given nodes) := by
  intro ns hns
  rw [taken_given hns]
  exact ha nodes h

theorem growing {step : Node → Phrase} (ha : Gives P a) (hstep : ∀ n, Gives P (step n)) :
    Gives P (growing a step) := by
  intro ns hns
  exact taken_growing (fun n hn => ha.yields _ hn n (by simp))
    (fun n m _ hm => (hstep n).yields _ hm m (by simp)) hns

end Gives

/-- A phrase whose first node, if there is one, has `P`. -/
def Opens (P : Node → Prop) (a : Phrase) : Prop := ∀ ns, Taken a ns → ∀ first ∈ ns.head?, P first

namespace Opens

variable {P : Node → Prop} {a : Phrase} {parts : List Phrase}

theorem of_yields (h : Yields P a) : Opens P a :=
  fun ns hns first hfirst => h ns hns first (List.mem_of_head? hfirst)

/-- What comes after something that is never empty does not matter. -/
theorem first [Solid a] (ha : Opens P a) : Opens P (sequence (a :: parts)) := by
  intro ns hns
  obtain ⟨x, y, hx, -, rfl⟩ := taken_cons hns
  cases x with
  | nil => exact absurd rfl (Solid.ne_nil hx)
  | cons n x => exact ha (n :: x) hx

theorem optional (ha : Opens P a) : Opens P (optional a) := by
  intro ns hns
  rcases taken_optional hns with hns | rfl
  · exact ha ns hns
  · simp

theorem cons (ha : Opens P a) (hrest : Opens P (sequence parts)) :
    Opens P (sequence (a :: parts)) := by
  intro ns hns
  obtain ⟨x, y, hx, hy, rfl⟩ := taken_cons hns
  cases x with
  | nil => exact hrest y hy
  | cons n x => exact ha (n :: x) hx

end Opens

/-! ## What is built -/

namespace Builds

variable {a b : Phrase} {parts : List Phrase} {front : List Node}

theorem given {nodes : List Node}
    (h : ∀ p q, Node.Laid source p front q → Node.Laid source p nodes q) :
    Builds source front (given nodes) := by
  intro ts ns rest htaken p q hfront hts
  cases htaken
  exact ⟨q, h p q hfront, hts⟩

/-- What was taken before, as it is. -/
theorem same : Builds source front (Phrase.given front) := given fun _ _ h => h

theorem nothing : Builds source [] nothing := same

theorem refuse : Builds source front refuse := by
  intro ts ns rest htaken
  cases htaken

theorem followedBy (ha : Builds source front a) (hb : Builds source [] b) :
    Builds source front (followedBy a b) := by
  intro ts ns rest htaken p q hfront hts
  obtain ⟨⟨first, mid⟩, hfirst, htaken⟩ := Option.bind_eq_some_iff.1 htaken
  obtain ⟨⟨second, last⟩, hsecond, heq⟩ := Option.bind_eq_some_iff.1 htaken
  obtain ⟨r, hns, hmid⟩ := ha _ _ _ hfirst p q hfront hts
  obtain ⟨s, hms, hlast⟩ := hb _ _ _ hsecond r r (.nil (Nat.le_refl _)) hmid
  cases heq
  exact ⟨s, hns.append hms, hlast⟩

theorem nil : Builds source [] (sequence []) := nothing

/-- Nodes that were taken one after the other are given one after the other. -/
theorem givens {nodes more : List Node}
    (h : Builds source front (sequence (Phrase.given (nodes ++ more) :: parts))) :
    Builds source front (sequence (Phrase.given nodes :: Phrase.given more :: parts)) := by
  intro ts ns rest htaken
  obtain ⟨⟨others, last⟩, hothers, heq⟩ := Option.bind_eq_some_iff.1 htaken
  obtain ⟨⟨later, last'⟩, hlater, heq'⟩ := Option.bind_eq_some_iff.1 hothers
  cases heq'
  cases heq
  refine h ts _ _ (Option.bind_eq_some_iff.2 ⟨(later, rest), hlater, ?_⟩)
  simp

theorem cons (ha : Builds source front a) (hrest : Builds source [] (sequence parts)) :
    Builds source front (sequence (a :: parts)) :=
  ha.followedBy hrest

/-- What is only asked for leaves what stands in front where it is. -/
theorem past (hb : ∀ ts ns rest, b ts = some (ns, rest) → ns = [] ∧ rest = ts)
    (ha : Builds source front a) : Builds source front (sequence [b, a]) := by
  intro ts ns rest htaken
  obtain ⟨⟨first, mid⟩, hfirst, htaken⟩ := Option.bind_eq_some_iff.1 htaken
  obtain ⟨⟨second, last⟩, hsecond, heq⟩ := Option.bind_eq_some_iff.1 htaken
  obtain ⟨⟨third, last'⟩, hthird, heq'⟩ := Option.bind_eq_some_iff.1 hsecond
  obtain ⟨rfl, rfl⟩ := hb _ _ _ hfirst
  cases heq
  cases heq'
  simpa using ha _ _ _ hthird

theorem either (ha : Builds source front a) (hb : Builds source front b) :
    Builds source front (either a b) := by
  intro ts ns rest htaken p q hfront hts
  unfold Phrase.either at htaken
  split at htaken
  · rename_i hfirst
    cases htaken
    exact ha _ _ _ hfirst p q hfront hts
  · exact hb _ _ _ htaken p q hfront hts

theorem none : Builds source front (oneOf []) := refuse

theorem or (ha : Builds source front a) (hrest : Builds source front (oneOf parts)) :
    Builds source front (oneOf (a :: parts)) :=
  ha.either hrest

theorem oneOf (h : ∀ a ∈ parts, Builds source front a) : Builds source front (oneOf parts) := by
  induction parts with
  | nil => exact none
  | cons a rest ih => exact or (h a (by simp)) (ih fun b hb => h b (by simp [hb]))

theorem optional (ha : Builds source [] a) : Builds source [] (optional a) := ha.either nothing

theorem upTo (ha : Builds source [] a) (bound : List Token) : Builds source [] (upTo bound a) := by
  induction bound with
  | nil => exact nothing
  | cons _ bound ih =>
    intro ts ns rest htaken p q hfront hts
    unfold Phrase.upTo at htaken
    split at htaken
    · cases htaken
      exact ⟨q, hfront, hts⟩
    · rename_i first mid hfirst
      obtain ⟨⟨more, last⟩, hmore, heq⟩ := Option.bind_eq_some_iff.1 htaken
      obtain ⟨r, hns, hmid⟩ := ha _ _ _ hfirst p q hfront hts
      obtain ⟨s, hms, hlast⟩ := ih _ _ _ hmore r r (.nil (Nat.le_refl _)) hmid
      cases heq
      exact ⟨s, hns.append hms, hlast⟩

theorem many (ha : Builds source [] a) : Builds source [] (many a) := by
  intro ts ns rest htaken
  exact ha.upTo ts ts ns rest htaken

theorem atLeastOne (ha : Builds source [] a) : Builds source [] (atLeastOne a) :=
  ha.followedBy ha.many

theorem separated (ha : Builds source [] a) (hb : Builds source [] b) :
    Builds source [] (separated a b) :=
  hb.followedBy (ha.followedBy hb).many

theorem ahead (a : Phrase) : Builds source [] (ahead a) := by
  intro ts ns rest htaken
  unfold Phrase.ahead at htaken
  split at htaken
  · exact nothing ts ns rest htaken
  · cases htaken

theorem notAhead (a : Phrase) : Builds source [] (notAhead a) := by
  intro ts ns rest htaken
  obtain ⟨rfl, rfl⟩ := notAhead_eq_some htaken
  exact nothing _ _ _ rfl

/-- The nodes that are taken first stay in front of what they call for. -/
theorem andThen {next : List Node → Phrase} (ha : Builds source [] a)
    (hnext : ∀ ns, Taken a ns → Builds source (front ++ ns) (next ns)) :
    Builds source front (andThen a next) := by
  intro ts ns rest htaken p q hfront hts
  obtain ⟨⟨first, mid⟩, hfirst, htaken⟩ := Option.bind_eq_some_iff.1 htaken
  obtain ⟨r, hns, hmid⟩ := ha _ _ _ hfirst q q (.nil (Nat.le_refl _)) hts
  exact hnext first ⟨_, _, hfirst⟩ _ _ _ htaken p r (hfront.append hns) hmid

section Growing

variable {step : Node → Phrase} {K : Node → Prop}

theorem grow (hbuilds : ∀ n, K n → Builds source [n] (step n))
    (hstep : ∀ n m, K n → Taken (step n) [m] → K m) (bound : List Token) {n : Node} (hn : K n) :
    Builds source [n] (grow bound step n) := by
  induction bound generalizing n with
  | nil => exact same
  | cons _ bound ih =>
    intro ts ns rest htaken p q hfront hts
    unfold Phrase.grow at htaken
    split at htaken
    · rename_i m mid hgrown
      obtain ⟨r, hm, hmid⟩ := hbuilds n hn _ _ _ hgrown p q hfront hts
      exact ih (hstep n m hn ⟨_, _, hgrown⟩) _ _ _ htaken p r hm hmid
    · exact same ts ns rest htaken p q hfront hts

/-- What grows may rely on what is kept while it grows. -/
theorem growingWith (ha : Builds source [] a) (hfirst : ∀ n, Taken a [n] → K n)
    (hbuilds : ∀ n, K n → Builds source [n] (step n))
    (hstep : ∀ n m, K n → Taken (step n) [m] → K m) : Builds source [] (growing a step) := by
  intro ts ns rest htaken p q hfront hts
  obtain ⟨⟨first, mid⟩, htaken', htaken⟩ := Option.bind_eq_some_iff.1 htaken
  obtain ⟨r, hns, hmid⟩ := ha _ _ _ htaken' p q hfront hts
  split at htaken
  · rename_i n rest heq
    cases heq
    exact grow hbuilds hstep _ (hfirst n ⟨_, _, htaken'⟩) _ _ _ htaken p r hns hmid
  · cases htaken

theorem growing (ha : Builds source [] a) (hbuilds : ∀ n, Builds source [n] (step n)) :
    Builds source [] (growing a step) :=
  growingWith (K := fun _ => True) ha (fun _ _ => trivial) (fun n _ => hbuilds n)
    fun _ _ _ _ => trivial

end Growing

section Nodes

variable {kind : NodeKind} {test : Token → Bool} {text : String} {role : Role}

/-- A role that is only for some kinds of nodes. -/
theorem asKind (ha : Builds source front a)
    (hrole : ∀ ns, Taken a ns → ∀ n ∈ ns, role.Fits n.kind) : Builds source front (as a role) := by
  intro ts ns rest htaken p q hfront hts
  obtain ⟨⟨first, mid⟩, hfirst, heq⟩ := Option.bind_eq_some_iff.1 htaken
  obtain ⟨r, hns, hmid⟩ := ha _ _ _ hfirst p q hfront hts
  cases heq
  exact ⟨r, hns.map_as (hrole first ⟨_, _, hfirst⟩), hmid⟩

theorem as (hrole : role.isFree = true) (ha : Builds source front a) :
    Builds source front (as a role) :=
  asKind ha fun _ _ n _ => role.fits_of_isFree hrole n.kind

/-- A node of a kind that promises something of its parts. -/
theorem shaped [Solid (sequence parts)] (hkind : kind.isBranch = true)
    (hparts : Builds source front (sequence parts))
    (hshape : ∀ ns, Taken (sequence parts) ns → Shape kind (ns.map Node.part)) :
    Builds source front (node kind parts) := by
  obtain ⟨hextra, hname⟩ := NodeKind.isBranch_iff.1 hkind
  intro ts ns rest htaken p q hfront hts
  obtain ⟨⟨first, mid⟩, hfirst, heq⟩ := Option.bind_eq_some_iff.1 htaken
  obtain ⟨r, hns, hmid⟩ := hparts _ _ _ hfirst p q hfront hts
  have hfirst' : Taken (sequence parts) first := ⟨_, _, hfirst⟩
  cases heq
  exact ⟨r, hns.branch (Solid.ne_nil hfirst') hextra hname (hshape first hfirst'), hmid⟩

theorem node [Solid (sequence parts)] (hkind : (kind.isBranch && kind.promises.isEmpty) = true)
    (hparts : Builds source front (sequence parts)) : Builds source front (node kind parts) := by
  obtain ⟨hbranch, hpromises⟩ := Bool.and_eq_true_iff.1 hkind
  exact shaped hbranch hparts fun _ _ => .none (List.isEmpty_iff.1 hpromises)

/-- A leaf takes the first token away. -/
theorem laid_leaf {t : Token} {ts : List Token} {p q : Nat} (hpq : p ≤ q)
    (hts : Token.Row source q (t :: ts)) (hkind : kind.isBare = true)
    (hname : kind.isName = true → t.kind = .word) :
    ∃ r, Node.Laid source p [.leaf kind t] r ∧ Token.Row source r ts := by
  obtain ⟨hplaced, hstart⟩ := hts.head
  have hgrown : Node.Grown source (.leaf kind t) := by
    refine .leaf hkind hplaced.start_lt_stop hplaced.stop_le fun h => ?_
    have htells := hplaced.tells
    rw [hname h] at htells
    exact htells
  exact ⟨t.span.stop, .one hgrown (Nat.le_trans hpq hstart) hplaced.start_lt_stop (Nat.le_refl _),
    hts.tail⟩

/-- A leaf that is a word if its kind is that of a name. -/
theorem word (hkind : kind.isBare = true)
    (hname : kind.isName = true → ∀ t, test t = true → t.kind = .word) :
    Builds source [] (leaf kind test) := by
  intro ts ns rest htaken p q hfront hts
  cases ts with
  | nil => cases htaken
  | cons t ts =>
    simp only [Phrase.leaf] at htaken
    split at htaken
    · rename_i ht
      cases htaken
      exact laid_leaf hfront.le hts hkind fun h => hname h t ht
    · cases htaken

theorem leaf (hkind : kind.isSign = true) : Builds source [] (leaf kind test) := by
  simp only [NodeKind.isSign, Bool.and_eq_true, Bool.not_eq_true'] at hkind
  refine word hkind.1 fun hname => ?_
  rw [hkind.2] at hname
  cases hname

theorem symbol : Builds source [] (symbol text) := leaf rfl

theorem keyword : Builds source [] (keyword text) := leaf rfl

theorem identifier : Builds source [] identifier :=
  word rfl fun _ t ht => by simpa using ht

theorem commas (ha : Builds source [] a) : Builds source [] (commas a) :=
  (symbol.separated ha).optional

end Nodes

end Builds

/-! ## What the rules give -/

/-- What can be seen of the nodes that a rule gives. -/
def Output : Rule → Node → Prop
  | .annotated, n => n.kind.isAnnotated = true
  | .plainType, n => n.kind.isPlainType = true
  | .block, n => n.kind = .block
  | .typeDeclaration, n => n.kind.isTypeDeclaration = true
  | _, _ => True

/-- Rules that give one node each, which plays no role yet. -/
class Regular (sub : Rule → Phrase) : Prop where
  gives : ∀ rule, Gives (fun n => n.role = none ∧ Output rule n) (sub rule)

theorem Regular.yields {sub : Rule → Phrase} [Regular sub] (rule : Rule) :
    Yields (fun n => n.role = none ∧ Output rule n) (sub rule) :=
  (gives rule).yields

instance {sub : Rule → Phrase} [Regular sub] (rule : Rule) : Solid (sub rule) :=
  (Regular.gives rule).solid

end Phrase

end Renaming.Java
