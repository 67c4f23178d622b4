import Renaming.Java.Grammar
import Renaming.Proofs.Java.Grammar.Declarations

/-!
# What the grammar builds

Every rule builds what the rules inside it build, however deep they nest. So the tree of a text
lies in it as its tokens do, and all its nodes keep the promises of their kinds.
-/

namespace Renaming.Java

namespace Phrase

variable {source : SourceText}

theorem gives_annotated {sub : Rule → Phrase} :
    Gives (fun n => n.role = none ∧ n.kind.isAnnotated = true) (annotated sub) :=
  .andThen fun _ _ => .either (.node fun _ => ⟨rfl, rfl⟩) (.node fun _ => ⟨rfl, rfl⟩)

theorem gives_typeDeclaration {sub : Rule → Phrase} :
    Gives (fun n => n.role = none ∧ n.kind.isTypeDeclaration = true) (typeDeclaration sub) :=
  .andThen fun _ _ => .or (.node fun _ => ⟨rfl, rfl⟩) <| .or (.node fun _ => ⟨rfl, rfl⟩) <|
    .or (.node fun _ => ⟨rfl, rfl⟩) <| .or (.node fun _ => ⟨rfl, rfl⟩) <|
    .or (.node fun _ => ⟨rfl, rfl⟩) .none

/-- Rules give single nodes if those inside them do. -/
theorem regular_ofRule {sub : Rule → Phrase} [Regular sub] : Regular (ofRule sub) where
  gives rule := by
    have hany {rule : Rule} {a : Phrase} (h : Gives Roleless a) (houtput : ∀ n, Output rule n) :
        Gives (fun n => n.role = none ∧ Output rule n) a := by
      intro ns hns
      obtain ⟨n, rfl, hn⟩ := h ns hns
      exact ⟨n, rfl, hn, houtput n⟩
    cases rule with
    | expression level arrows => exact hany (gives_expressionAt level arrows) fun _ => trivial
    | primary => exact hany gives_primary fun _ => trivial
    | initializer => exact hany (.either gives_node (gives_sub _)) fun _ => trivial
    | elementValue =>
      exact hany (.or gives_node <| .or (gives_sub _) <| .or (gives_sub _) .none) fun _ => trivial
    | annotated => exact gives_annotated
    | type => exact hany (.either gives_node (gives_sub _)) fun _ => trivial
    | plainType => exact gives_plainType
    | recordPattern => exact hany gives_node fun _ => trivial
    | statement => exact hany gives_statement fun _ => trivial
    | block => exact .node fun _ => ⟨rfl, rfl⟩
    | typeDeclaration => exact gives_typeDeclaration
    | classBody => exact hany gives_node fun _ => trivial

instance regular_nested (depth : Nat) : Regular (nested depth) := by
  induction depth with
  | zero => exact ⟨fun _ => .refuse⟩
  | succ depth ih =>
    have hrule : Regular (ofRule (nested depth)) := regular_ofRule
    exact ⟨fun rule => hrule.gives rule⟩

section Rules

variable {sub : Rule → Phrase} [Regular sub] (hsub : ∀ rule, Builds source [] (sub rule))
include hsub

theorem builds_ofRule (rule : Rule) : Builds source [] (ofRule sub rule) := by
  cases rule with
  | expression level arrows => exact builds_expressionAt hsub level arrows
  | primary => exact builds_primary hsub
  | initializer => exact builds_initializer hsub
  | elementValue => exact builds_elementValue hsub
  | annotated => exact builds_annotated hsub
  | type => exact builds_type hsub
  | plainType => exact builds_plainType hsub
  | recordPattern => exact builds_recordPattern hsub
  | statement => exact builds_statement hsub
  | block => exact builds_block hsub
  | typeDeclaration => exact builds_typeDeclaration hsub
  | classBody => exact builds_classBody hsub

/-- The tree of a text need not have any parts. -/
theorem grown_program {ts : List Token} {tree : Node} {rest : List Token}
    (htaken : program sub ts = some ([tree], rest)) (hts : Token.Row source 0 ts) :
    tree.kind = .program ∧ Node.Grown source tree := by
  have hmembers : Builds source []
      (many (either (sub .statement) (andThen (modifiers sub) (methodDeclaration sub)))) :=
    .many <| .either (hsub _) <| .andThen (builds_modifiers hsub) fun _ hms =>
      builds_methodDeclaration hsub (taken_modifiers hms)
  unfold program at htaken
  split at htaken
  · rename_i ns htaken'
    cases htaken
    obtain ⟨r, hns, -⟩ := hmembers _ _ _ htaken' 0 0 (.nil (Nat.le_refl _)) hts
    by_cases hne : ns = []
    · subst hne
      exact ⟨rfl, .mk ⟨⟨Nat.zero_le _, Nat.zero_le _, nofun, .nil⟩, rfl, nofun, .none rfl,
        fun h => absurd rfl h, by simp⟩ (by simp)⟩
    · have hbranch : Node.Laid source 0 [.branch .program ns] r :=
        hns.branch hne rfl rfl (.none rfl)
      exact ⟨rfl, hbranch.grown _ (by simp)⟩
  · cases htaken

end Rules

/-- What rules build does not depend on how deep they nest. -/
theorem builds_nested (depth : Nat) (rule : Rule) : Builds source [] (nested depth rule) := by
  induction depth generalizing rule with
  | zero => exact .refuse
  | succ depth ih => exact builds_ofRule ih rule

end Phrase

/-- A sound tree of a whole text. If nothing like a program can be made out in the text, the tree is
an error as a whole. -/
structure Node.Whole (source : SourceText) (root : Node) : Prop where
  kind : root.kind = .program ∨ root.kind = .error
  sound : root.Sound source

instance (source : SourceText) (root : Node) : Decidable (root.Whole source) :=
  decidable_of_iff ((root.kind = .program ∨ root.kind = .error) ∧ root.Sound source)
    ⟨fun h => ⟨h.1, h.2⟩, fun h => ⟨h.kind, h.sound⟩⟩

/-- The tree of a well-formed text has no errors in it. -/
theorem Node.ofText?_whole {text : String} {root : Node} (h : Node.ofText? text = some root) :
    root.Whole (.ofString text) ∧ root.firstError? = none := by
  obtain ⟨tokens, htokens, h⟩ := Option.bind_eq_some_iff.1 h
  have hrow := Token.ofText?_row htokens
  simp only [List.partition_eq_filter_filter] at h
  obtain ⟨⟨trees, rest⟩, htrees, h⟩ := Option.bind_eq_some_iff.1 h
  split at h
  · rename_i tree rest' heq
    cases heq
    cases h
    obtain ⟨hkind, hgrown⟩ := Phrase.grown_program (Phrase.builds_nested _) htrees
      (hrow.sublist List.filter_sublist)
    have hcomments : ∀ t ∈ tokens.filter Token.isComment, CommentToken (.ofString text) t := by
      intro t ht
      obtain ⟨hmem, hcomment⟩ := List.mem_filter.1 ht
      exact ⟨hrow.placed t hmem, hcomment⟩
    exact ⟨⟨.inl ((congrArg Part.kind (part_weave _ tree)).trans hkind),
      sound_weave hcomments hgrown⟩, firstError?_weave hcomments hgrown⟩
  · cases h

end Renaming.Java
