/-!
The words with a role in the JavaScript grammar. Some are reserved and can never name a binding;
the others are keywords only where the grammar expects them, the last group in declarations of types
and as modifiers of class elements.
-/

namespace EsmCompletion.Script

inductive Keyword where
  | await_ | break_ | case_ | catch_ | class_ | const_ | continue_ | debugger_ | default_ | delete_
  | do_ | else_ | enum_ | export_ | extends_ | false_ | finally_ | for_ | function_ | if_ | import_
  | in_ | instanceof_ | new_ | null_ | return_ | super_ | switch_ | this_ | throw_ | true_ | try_
  | typeof_ | var_ | void_ | while_ | with_ | yield_
  | implements_ | interface_ | let_ | package_ | private_ | protected_ | public_ | static_
  | accessor_ | as_ | assert_ | async_ | defer_ | from_ | get_ | meta_ | of_ | set_ | source_
  | target_ | using_
  | abstract_ | any_ | asserts_ | bigint_ | boolean_ | constructor_ | declare_ | global_ | infer_
  | intrinsic_ | is_ | keyof_ | module_ | namespace_ | never_ | number_ | object_ | out_ | override_
  | readonly_ | require_ | satisfies_ | string_ | symbol_ | type_ | undefined_ | unique_ | unknown_
  deriving DecidableEq, Repr

namespace Keyword

/-- Every keyword with its spelling. -/
def table : List (List Char × Keyword) :=
  [("await", await_), ("break", break_), ("case", case_), ("catch", catch_), ("class", class_),
    ("const", const_), ("continue", continue_), ("debugger", debugger_), ("default", default_),
    ("delete", delete_), ("do", do_), ("else", else_), ("enum", enum_), ("export", export_),
    ("extends", extends_), ("false", false_), ("finally", finally_), ("for", for_),
    ("function", function_), ("if", if_), ("import", import_), ("in", in_),
    ("instanceof", instanceof_), ("new", new_), ("null", null_), ("return", return_),
    ("super", super_), ("switch", switch_), ("this", this_), ("throw", throw_), ("true", true_),
    ("try", try_), ("typeof", typeof_), ("var", var_), ("void", void_), ("while", while_),
    ("with", with_), ("yield", yield_), ("implements", implements_), ("interface", interface_),
    ("let", let_), ("package", package_), ("private", private_), ("protected", protected_),
    ("public", public_), ("static", static_), ("accessor", accessor_), ("as", as_),
    ("assert", assert_), ("async", async_), ("defer", defer_), ("from", from_), ("get", get_),
    ("meta", meta_), ("of", of_), ("set", set_), ("source", source_), ("target", target_),
    ("using", using_), ("abstract", abstract_), ("any", any_), ("asserts", asserts_),
    ("bigint", bigint_), ("boolean", boolean_), ("constructor", constructor_),
    ("declare", declare_), ("global", global_), ("infer", infer_), ("intrinsic", intrinsic_),
    ("is", is_), ("keyof", keyof_), ("module", module_), ("namespace", namespace_),
    ("never", never_), ("number", number_), ("object", object_), ("out", out_),
    ("override", override_), ("readonly", readonly_), ("require", require_),
    ("satisfies", satisfies_), ("string", string_), ("symbol", symbol_), ("type", type_),
    ("undefined", undefined_), ("unique", unique_), ("unknown", unknown_)].map
      fun entry => (entry.1.toList, entry.2)

def ofChars? (cs : List Char) : Option Keyword :=
  (table.find? fun entry => entry.1 == cs).map Prod.snd

/-- Reserved words never name a variable, a function or a label, apart from `await` and `yield`, which
are reserved in some places only. -/
def isReserved : Keyword → Bool
  | await_ | break_ | case_ | catch_ | class_ | const_ | continue_ | debugger_ | default_ | delete_
  | do_ | else_ | enum_ | export_ | extends_ | false_ | finally_ | for_ | function_ | if_ | import_
  | in_ | instanceof_ | new_ | null_ | return_ | super_ | switch_ | this_ | throw_ | true_ | try_
  | typeof_ | var_ | void_ | while_ | with_ | yield_ => true
  | _ => false

/-- Words that cannot be exported from the module itself: besides the reserved ones those that
strict code sets aside. -/
def isReservedForExport : Keyword → Bool
  | static_ | implements_ | interface_ | package_ | private_ | protected_ | public_ => true
  | k => k.isReserved

/-- Words that may name a binding somewhere. -/
def canName : Keyword → Bool
  | await_ | yield_ => true
  | k => !k.isReserved

def isModifier : Keyword → Bool
  | abstract_ | accessor_ | async_ | const_ | declare_ | default_ | export_ | in_ | out_ | override_
  | private_ | protected_ | public_ | readonly_ | static_ => true
  | _ => false

/-- The modifiers that tell from where an element can be reached. -/
def isAccessibility : Keyword → Bool
  | private_ | protected_ | public_ => true
  | _ => false

end Keyword

end EsmCompletion.Script
