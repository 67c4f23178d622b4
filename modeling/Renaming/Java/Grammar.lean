import Renaming.Java.Grammar.Declarations

/-!
# Syntax trees of texts

The rules that contain each other are tied together by a bound on how deep they nest. The bound that
`Node.ofText?` uses grows with the number of tokens and is never reached: no rule asks for more than
a few others before it takes a token.
-/

namespace Renaming.Java

namespace Phrase

/-- What a rule takes, given what the rules inside it take. -/
def ofRule (sub : Rule → Phrase) : Rule → Phrase
  | .expression level arrows => expressionAt sub level arrows
  | .primary => primary sub
  | .initializer => initializer sub
  | .elementValue => elementValue sub
  | .annotated => annotated sub
  | .type => type sub
  | .plainType => plainType sub
  | .recordPattern => recordPattern sub
  | .statement => statement sub
  | .block => block sub
  | .typeDeclaration => typeDeclaration sub
  | .classBody => classBody sub

/-- What a rule takes if rules nest no deeper than `depth`. -/
def nested : Nat → Rule → Phrase
  | 0, _ => refuse
  | depth + 1, rule => fun ts => ofRule (fun r us => nested depth r us) rule ts

/-- Statements and methods, up to the end of the text. -/
def program (sub : Rule → Phrase) : Phrase := fun ts =>
  match many (either (sub .statement) (andThen (modifiers sub) (methodDeclaration sub))) ts with
  | some (ns, []) => some ([.branch .program ns], [])
  | _ => none

end Phrase

/-- How deep rules may nest for each token. -/
def nestingPerToken : Nat := 16

/-- The tree of a text, or none if the text is not well formed. -/
def Node.ofText? (text : String) : Option Node := do
  let tokens ← Token.ofText? text
  let (comments, words) := tokens.partition Token.isComment
  let depth := nestingPerToken * (words.length + 1)
  match ← Phrase.program (Phrase.nested depth) words with
  | ([tree], _) => pure (tree.weave comments)
  | _ => none

end Renaming.Java
