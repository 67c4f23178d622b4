import Renaming.Java.Grammar
import Renaming.Proofs.Java.Comments.Declarations
import Renaming.Proofs.Java.Comments.Trees
import Renaming.Proofs.Java.Grammar

/-!
# Comments put into texts

A comment that is put between the tokens of a text hangs in its tree, and without it the tree is
that of the text before, moved.
-/

namespace Renaming.Java

variable {i : Insertion}

namespace Node

/-- The comments that hang in a tree after an insertion, but for the one that was put in, are those
before. -/
structure Recommented (i : Insertion) (cs cs' : List Token) : Prop where
  comment : ∀ t ∈ cs', (ofComment t).kind.isComment = true
  kept : cs'.filter (fun t => t.span != i.inserted) = cs.map i.token

theorem Recommented.filter {cs cs' : List Token} (h : Recommented i cs cs') {p p' : Token → Bool}
    (hp : ∀ t, p' (i.token t) = p t) : Recommented i (cs.filter p) (cs'.filter p') where
  comment t ht := h.comment t (List.mem_filter.1 ht).1
  kept := by
    have hcomp : p' ∘ i.token = p := funext hp
    rw [List.filter_filter, ← hcomp]
    simp only [Bool.and_comm]
    rw [← List.filter_filter, h.kept, List.filter_map]

theorem adds_ofComment {t : Token} (h : (ofComment t).kind.isComment = true) :
    i.adds (ofComment t) = !(t.span != i.inserted) := by
  rw [bne, Bool.not_not]
  exact (congrArg (· && t.span == i.inserted) h).trans (Bool.true_and _)

theorem without_ofComment (t : Token) : (ofComment t).without i = ofComment t := rfl

theorem withoutAll_comments {cs cs' : List Token} (h : Recommented i cs cs') (ns : List Node) :
    withoutAll i (cs'.map ofComment ++ ns) =
      (cs.map ofComment).map (moved i) ++ withoutAll i ns := by
  obtain ⟨hcomment, hkept⟩ := h
  rw [List.map_map, show moved i ∘ ofComment = ofComment ∘ i.token from rfl, ← List.map_map,
    ← hkept]
  clear hkept
  induction cs' with
  | nil => rfl
  | cons t rest ih =>
    have hrest := ih fun u hu => hcomment u (by simp [hu])
    rw [List.map_cons, List.cons_append, withoutAll, adds_ofComment (hcomment t (by simp)),
      List.filter_cons, without_ofComment]
    cases t.span != i.inserted with
    | true => simpa using hrest
    | false => simpa using hrest

theorem span_weave (cs : List Token) (n : Node) : (weave cs n).span = n.span := by
  cases n
  rfl

mutual

/-- Without what was put in, a tree with its comments is the one before. -/
theorem without_weave {cs cs' : List Token} (h : Recommented i cs cs') :
    ∀ n : Node, (weave cs' (n.moved i)).without i = (weave cs n).moved i
  | mk kind role span text children => by
    simp only [moved, weave, without, withoutAll_weaveInto h children]

theorem withoutAll_weaveInto {cs cs' : List Token} (h : Recommented i cs cs') :
    ∀ ns : List Node, withoutAll i (weaveInto cs' (movedAll i ns)) = movedAll i (weaveInto cs ns)
  | [] => by
    have hall := withoutAll_comments h []
    simpa [weaveInto, movedAll, movedAll_eq_map, withoutAll] using hall
  | c :: rest => by
    have hstart : (c.moved i).start = i.start c.start := congrArg Span.start (span_moved c)
    have hstop : (c.moved i).stop = i.stop c.stop := congrArg Span.stop (span_moved c)
    have hbefore : Recommented i (cs.filter fun t => t.span.stop ≤ c.start)
        (cs'.filter fun t => t.span.stop ≤ (c.moved i).start) := by
      refine h.filter fun t => ?_
      rw [hstart]
      exact decide_eq_decide.2 i.stop_le_start
    have hinside : Recommented i
        (cs.filter fun t => c.start < t.span.start && t.span.stop < c.stop)
        (cs'.filter fun t =>
          (c.moved i).start < t.span.start && t.span.stop < (c.moved i).stop) := by
      refine h.filter fun t => ?_
      rw [hstart, hstop]
      exact congrArg₂ (· && ·) (decide_eq_decide.2 i.start_lt_start)
        (decide_eq_decide.2 i.stop_lt_stop)
    have hafter : Recommented i (cs.filter fun t => c.stop ≤ t.span.start)
        (cs'.filter fun t => (c.moved i).stop ≤ t.span.start) := by
      refine h.filter fun t => ?_
      rw [hstop]
      exact decide_eq_decide.2 i.stop_le_start
    have hkept (ts : List Token) : i.adds (weave ts (c.moved i)) = false :=
      Insertion.not_adds_of_span ((span_weave ts _).trans (span_moved c))
    have hrest := withoutAll_weaveInto hafter rest
    simp only [movedAll_eq_map] at hrest
    simp only [movedAll, weaveInto, withoutAll_comments hbefore, withoutAll, hkept,
      without_weave hinside c, movedAll_eq_map, List.map_append, List.map_cons]
    simp [hrest]

end

/-- Tokens of a text, and of a text with a comment put in. -/
structure Retokened (i : Insertion) (tokens tokens' : List Token) : Prop where
  words : Token.Alike i (tokens.filter (not ∘ Token.isComment))
    (tokens'.filter (not ∘ Token.isComment))
  comments : (tokens'.filter Token.isComment).filter (fun t => t.span != i.inserted) =
    (tokens.filter Token.isComment).map i.token

/-- The tree of a text with a comment put in is that of the text before, without the comment. -/
theorem without_ofText? {text text' : String} {tokens tokens' : List Token} {root root' : Node}
    (htokens : Token.ofText? text = some tokens) (htokens' : Token.ofText? text' = some tokens')
    (h : Retokened i tokens tokens') (hroot : ofText? text = some root)
    (hroot' : ofText? text' = some root') : root'.without i = root.moved i := by
  have hcomments : Recommented i (tokens.filter Token.isComment)
      (tokens'.filter Token.isComment) := by
    refine ⟨fun t ht => ?_, h.comments⟩
    obtain ⟨hmem, hcomment⟩ := List.mem_filter.1 ht
    have hplaced : CommentToken (.ofString text') t :=
      ⟨(Token.ofText?_row htokens').placed t hmem, hcomment⟩
    exact isComment_ofComment hplaced
  simp only [ofText?, htokens, htokens', Option.bind_eq_bind, Option.bind_some,
    List.partition_eq_filter_filter, ← h.words.length_eq] at hroot hroot'
  generalize nestingPerToken * _ = depth at hroot hroot'
  have hagree := Phrase.alike_program (Phrase.alike_nested depth) _ _ h.words
  generalize Phrase.program _ (tokens.filter _) = x, Phrase.program _ (tokens'.filter _) = x'
    at hagree hroot hroot'
  cases hagree with
  | none => cases hroot
  | @some ns ns' rest rest' hns hrest =>
    rcases hns.single_cases with ⟨n, n', rfl, rfl, hn⟩ | hmany
    · cases hroot
      cases hroot'
      obtain rfl : n.moved i = n' := by simpa [Alike] using hn
      exact without_weave hcomments n
    · dsimp only [Option.bind_some] at hroot
      split at hroot
      · rename_i heq
        cases heq
        exact absurd rfl (hmany _).1
      · cases hroot

end Node

end Renaming.Java
