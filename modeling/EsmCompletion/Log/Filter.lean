import EsmCompletion.Decimal
import EsmCompletion.Log.Event
import EsmCompletion.Unicode.Word

/-!
Filters that choose which events are logged. A filter is a list of directives, each with a limit; of
those that speak of an event, the most specific one decides.

A directive is written `target[span{field}]=limit`, of which all parts may be missing but not all at
once.
-/

namespace EsmCompletion.Log

/-- Lets events pass up to a rank. -/
structure Directive where
  /-- The beginning of the targets that it speaks of; it speaks of all if there is none. -/
  target : Option (List Char)
  /-- The name of a field that an event needs to have for it to speak of the event, if there is one. -/
  field : Option (List Char)
  /-- Whether it speaks only of what happens in certain spans of time. No event is in any. -/
  withinSpans : Bool
  limit : Nat
  deriving DecidableEq, Repr

abbrev Filter := List Directive

namespace Directive

/-- The directive that lets everything pass. -/
def everything : Directive :=
  { target := none, field := none, withinSpans := false, limit := Level.trace.rank }

/-- The limit that a word stands for: a rank, or the name of a level in any case. -/
def limitOf? (word : List Char) : Option Nat :=
  match (signedWord? word).filter (· ≤ Level.trace.rank) with
  | some rank => some rank
  | none =>
    match String.ofList (word.map Char.toLower) with
    | "off" => some 0
    | "error" => some Level.error.rank
    | "warn" => some Level.warn.rank
    | "info" => some Level.info.rank
    | "debug" => some Level.debug.rank
    | "trace" => some Level.trace.rank
    | _ => none

/-- Gives a directive the limit that is written behind its equals sign, if there is one. -/
def limited? (directive : Directive) (limit : List Char) : Option Directive :=
  if limit.isEmpty then some directive
  else (limitOf? limit).map fun limit => { directive with limit }

/-- Reads what stands behind the bracket that ends a span. The structure of a directive is read from
`cs`, its parts are taken from `shown`. -/
def afterSpan? (directive : Directive) (cs shown : List Char) : Option Directive :=
  match cs with
  | [] => some directive
  | '=' :: _ => directive.limited? (shown.drop 1)
  | _ => none

/-- Reads a span, behind its opening bracket: a name, and the name of a field in braces. A field with a
value behind an equals sign belongs to the span alone. -/
def span? (directive : Directive) (cs shown : List Char) : Option Directive :=
  let name := cs.takeWhile fun c => c != ']' && c != '{'
  let behind := shown.drop (name.length + 1)
  match cs.drop name.length with
  | ']' :: r => afterSpan? { directive with withinSpans := true } r behind
  | '{' :: r =>
    let width := (r.takeWhile (· != '}')).length
    let field := behind.take width
    match r.drop width with
    | '}' :: ']' :: t =>
      if field.isEmpty then none
      else
        let withinSpans := !name.isEmpty || field.contains '='
        afterSpan? { directive with field := some field, withinSpans } t (behind.drop (width + 2))
    | _ => none
  | _ => none

/-- Whether a target may start with the character. -/
def startsTarget (c : Char) : Bool :=
  c == '-' || c == ':' || c == '_' || (Unicode.isWord c)

/-- Reads a directive. Its structure is seen without the blanks around it, but its parts are taken
from the text with the blanks, from the same positions on. -/
def parse? (shown : List Char) : Option Directive :=
  let cs := (shown.dropWhile Unicode.isWhiteSpace).reverse.dropWhile Unicode.isWhiteSpace |>.reverse
  match cs with
  | [] => none
  | '[' :: r => everything.span? r (shown.drop 1)
  | c :: _ =>
    if startsTarget c then
      let width := (cs.takeWhile fun c => c != '=' && c != '[').length
      let named := { everything with target := some (shown.take width) }
      match cs.drop width with
      | '=' :: _ => named.limited? (shown.drop (width + 1))
      | '[' :: r => named.span? r (shown.drop (width + 1))
      | _ =>
        match limitOf? shown with
        | some limit => some { everything with limit }
        | none => some { everything with target := some shown }
    else none

def speaksOf (directive : Directive) (event : Event) : Bool :=
  !directive.withinSpans && (directive.target.all fun t => t.isPrefixOf event.target.toList) &&
    directive.field.all fun field => String.ofList field ∈ event.fieldNames

/-- How specific the target of a directive is: the longer the more, and least if there is none. -/
def targetWidth (directive : Directive) : Nat :=
  match directive.target with
  | some target => target.length + 1
  | none => 0

/-- Whether one name stands before another one in a dictionary. -/
def standsBefore (name other : List Char) : Bool :=
  List.lex name other fun a b => a.toNat < b.toNat

/-- Whether a directive takes precedence over an earlier one: by a longer target, then by naming a
field, then by a field that does not stand before the other one. -/
def overrides (later earlier : Directive) : Bool :=
  if later.targetWidth = earlier.targetWidth then
    match later.field, earlier.field with
    | some field, some other => !standsBefore field other
    | none, some _ => false
    | _, none => true
  else earlier.targetWidth < later.targetWidth

end Directive

namespace Filter

def parse? (text : String) : Option Filter :=
  ((text.toList.splitOn ',').filter (· ≠ [])).mapM Directive.parse?

/-- The filter that is used unless another one can be read. -/
def default : Filter := [{ Directive.everything with limit := Level.info.rank }]

/-- The filter that the value of an environment variable asks for. -/
def ofVariable (value : Option String) : Filter := (value.bind parse?).getD default

/-- The directive that decides on an event: the most specific one that speaks of it. -/
def deciding? (filter : Filter) (event : Event) : Option Directive :=
  filter.foldl (fun best directive =>
    if directive.speaksOf event && best.all directive.overrides then some directive else best) none

def passes (filter : Filter) (event : Event) : Bool :=
  match filter.deciding? event with
  | none => false
  | some directive => event.level.rank ≤ directive.limit

end Filter

end EsmCompletion.Log
