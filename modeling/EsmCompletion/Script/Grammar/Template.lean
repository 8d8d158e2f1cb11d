import EsmCompletion.Script.Grammar.Rules

/-!
Templates: chunks of text with substitutions between them.
-/

namespace EsmCompletion.Script.Grammar

open Reader

/-- At the brace that closes a substitution, goes over to the chunk behind it. Elsewhere the
substitution has not ended. -/
def closeSubstitution : Reader Unit := do
  if ← isAt .rightBrace then
    match TemplateChunk.read? (← get).rest with
    | some (chunk, rest) =>
      modify fun place => { place with token := .template chunk, afterNewline := false, rest }
    | none => failure

/-- A template from the chunk at hand on, or from within a substitution. A substitution holds one
item, or several one after the other, each read by the given reader. `continued` tells whether the
chunk at hand, if there is one, goes on with the template or starts another one inside the
substitution. An ill-formed escape is a flaw unless the template is tagged. -/
def templateFrom (item : Reader Unit) (tagged : Bool) : Nat → Bool → Reader Unit
  | 0, _ => failure
  | bound + 1, continued => do
    match continued, ← token with
    | true, .template chunk =>
      flawUnless (tagged || chunk.wellFormed)
      skip
      unless chunk.last do
        templateFrom item tagged bound false
    | _, _ =>
      item
      let closes ← isAt .rightBrace
      closeSubstitution
      templateFrom item tagged bound closes

/-- A template, from its first chunk on. -/
def template (rules : Rules) (item : Reader Unit) (tagged : Bool) : Reader Unit :=
  templateFrom item tagged (2 * rules.bound) true

end EsmCompletion.Script.Grammar
