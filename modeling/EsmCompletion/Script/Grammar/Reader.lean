import EsmCompletion.Script.Token

/-!
Reading source text token by token. A reader either gives a result and the place behind what it read,
or gives up. Some mistakes do not keep it from going on: they are counted as flaws, and a text with a
flaw is no well-formed module. No reader reports why the text is wrong, but the place where it gave up
stays known.

A reader may be tried where it is not clear what the text is. If it gives up, the text is read again
from where the trial started, and its flaws are forgotten.
-/

namespace EsmCompletion.Script.Grammar

/-- What surrounds a place, as far as the grammar depends on it. -/
structure Setting where
  /-- Whether `in` may be used as an operator. -/
  allowsIn : Bool
  /-- Whether `await` is reserved, as in a module and in asynchronous functions. -/
  awaits : Bool
  /-- Whether `yield` is reserved, as in generators. -/
  yields : Bool
  /-- Whether `return` may be used. -/
  inFunction : Bool
  /-- Whether the expression of a decorator is read, in which a bracket accesses no property. -/
  inDecorator : Bool
  deriving Repr

/-- The setting at the start of a module. -/
def Setting.module : Setting :=
  { allowsIn := true, awaits := true, yields := false, inFunction := false, inDecorator := false }

/-- A place in the source, and what is known there. -/
structure Place where
  token : Token
  afterNewline : Bool
  rest : List Char
  /-- How many tokens lie before the one at hand. -/
  index : Nat
  /-- How many flaws were found. -/
  flaws : Nat
  setting : Setting
  /-- Where defaults of the form `{ a = 1 }` were read in object literals and not yet claimed by a
  destructuring assignment. One left over is a flaw. -/
  unclaimed : List Nat
  /-- Where the parameters of an arrow function were looked for in vain. -/
  noParameters : List Nat
  deriving Repr

def Place.start (cs : List Char) : Place :=
  let lexeme := Lexeme.next cs
  { token := lexeme.token, afterNewline := lexeme.afterNewline, rest := lexeme.rest, index := 0,
    flaws := 0, setting := .module, unclaimed := [], noParameters := [] }

abbrev Reader := OptionT (StateM Place)

end EsmCompletion.Script.Grammar

namespace EsmCompletion.Script.Token

def isPunctuator (p : Punctuator) : Token → Bool
  | punctuator q => p == q
  | _ => false

/-- Whether the token is the given keyword, in whatever way it is written. -/
def isKeyword (k : Keyword) : Token → Bool
  | word _ (some l) _ => k == l
  | _ => false

/-- Whether the token is a keyword that is written with an escape. -/
def isEscapedKeyword : Token → Bool
  | word _ (some _) true => true
  | _ => false

def isWord : Token → Bool
  | word .. => true
  | _ => false

/-- Whether the token is a name that is no keyword of any kind. -/
def isPlainName : Token → Bool
  | word _ none _ => true
  | _ => false

/-- Whether the token may name a binding somewhere. -/
def canName : Token → Bool
  | word _ keyword _ => keyword.all Keyword.canName
  | _ => false

def isLiteral : Token → Bool
  | number | string _ => true
  | word _ (some k) _ => k == .null_ || k == .true_ || k == .false_
  | _ => false

def startsPropertyName : Token → Bool
  | word .. | privateName _ | number | string _ => true
  | punctuator .leftBracket => true
  | _ => false

end EsmCompletion.Script.Token

namespace EsmCompletion.Script.Grammar.Reader

def token : Reader Token := do return (← get).token

def following : Reader Lexeme := do return Lexeme.next (← get).rest

def setting : Reader Setting := do return (← get).setting

def flaw : Reader Unit := modify fun place => { place with flaws := place.flaws + 1 }

def flawUnless (condition : Bool) : Reader Unit := unless condition do flaw

/-- Goes over to the first token of the given text. -/
def resumeAt (cs : List Char) : Reader Unit :=
  modify fun place =>
    let lexeme := Lexeme.next cs
    { place with
      token := lexeme.token, afterNewline := lexeme.afterNewline, rest := lexeme.rest,
      index := place.index + 1 }

/-- Steps over the token at hand, whatever it is. -/
def skip : Reader Unit := do resumeAt (← get).rest

/-- Steps over the token at hand in its own role, which an escaped keyword cannot play. -/
def advance : Reader Unit := do
  flawUnless !(← token).isEscapedKeyword
  skip

def isAt (p : Punctuator) : Reader Bool := do return (← token).isPunctuator p

def isAtKeyword (k : Keyword) : Reader Bool := do return (← token).isKeyword k

def eat (p : Punctuator) : Reader Bool := do
  if ← isAt p then
    advance
    return true
  else return false

def eatKeyword (k : Keyword) : Reader Bool := do
  if ← isAtKeyword k then
    advance
    return true
  else return false

def expect (p : Punctuator) : Reader Unit := do guard (← eat p)

def expectKeyword (k : Keyword) : Reader Unit := do guard (← eatKeyword k)

/-- Changes the setting from here on. -/
def change (f : Setting → Setting) : Reader Unit :=
  modify fun place => { place with setting := f place.setting }

/-- Runs a reader in a changed setting. The setting around it is found again afterwards, also if the
reader gives up. -/
def within {α : Type} (f : Setting → Setting) (reader : Reader α) : Reader α :=
  OptionT.mk fun place =>
    let result := reader.run { place with setting := f place.setting }
    (result.1, { result.2 with setting := place.setting })

def allowingIn {α : Type} (reader : Reader α) : Reader α :=
  within (fun s => { s with allowsIn := true }) reader

/-- Runs a reader between parentheses, where neither a loop's head nor a decorator restricts it. -/
def enclosed {α : Type} (reader : Reader α) : Reader α :=
  within (fun s => { s with allowsIn := true, inDecorator := false }) reader

/-- Tries a reader. If it gives up, the place is the one where it started and its flaws are gone; but
the setting stays as it was when it gave up, and what it found out about places stays known. -/
def attempt {α : Type} (reader : Reader α) : Reader (Option α) :=
  OptionT.mk fun place =>
    match reader.run place with
    | (some a, after) => (some (some a), after)
    | (none, after) =>
      (some none,
        { place with
          setting := after.setting, unclaimed := after.unclaimed,
          noParameters := after.noParameters })

/-- Whether a statement may end here without a semicolon. -/
def atStatementEnd : Reader Bool := do
  let place ← get
  return place.token.isPunctuator .semicolon || place.token.isPunctuator .rightBrace ||
    place.token == .endOfInput || place.afterNewline

/-- The end of a statement: a semicolon, or a place where one may be left out. -/
def semicolon : Reader Unit := do
  guard (← atStatementEnd)
  discard (eat .semicolon)

/-- Items up to a closing punctuator, which is read too. The first argument bounds their number. -/
def itemsUntil {α : Type} (close : Punctuator) (item : Reader α) :
    Nat → List α → Reader (List α)
  | 0, _ => failure
  | bound + 1, earlier => do
    if ← eat close then return earlier.reverse
    else
      let a ← item
      itemsUntil close item bound (a :: earlier)

/-- A list read by `commaSeparated`. -/
structure Separated (α : Type) where
  items : List α
  /-- Whether a comma follows the last item. -/
  trailingComma : Bool

/-- Items separated by commas up to a closing punctuator, which is read too. A comma may follow the
last item. The first argument bounds the number of items. -/
def commaSeparated {α : Type} (close : Punctuator) (item : Reader α) :
    Nat → List α → Reader (Separated α)
  | 0, _ => failure
  | bound + 1, earlier => do
    if ← eat close then return ⟨earlier.reverse, !earlier.isEmpty⟩
    else
      let a ← item
      if ← eat .comma then commaSeparated close item bound (a :: earlier)
      else
        expect close
        return ⟨(a :: earlier).reverse, false⟩

/-- One or more items with commas between them. The first argument bounds their number. -/
def oneOrMore {α : Type} (item : Reader α) : Nat → List α → Reader (List α)
  | 0, _ => failure
  | bound + 1, earlier => do
    let a ← item
    if ← eat .comma then oneOrMore item bound (a :: earlier)
    else return (a :: earlier).reverse

end EsmCompletion.Script.Grammar.Reader
