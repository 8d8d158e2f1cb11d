import EsmCompletion.Proofs.Json.Line

/-! # The grammar of JSON

What a text writes, said without the reader: tokens, with white space before and behind any of them,
and values inside of values. Whatever the grammar allows is read. A value is read up to its end and no
further, also a number, which nothing closes: behind a value there is white space, a comma, a bracket
or nothing, and none of these goes on with a number. -/

namespace EsmCompletion.Json

/-! ## Tokens -/

/-- White space between tokens. -/
def IsGap (text : List Char) : Prop := ∀ c ∈ text, c ∈ [' ', '\t', '\n', '\r']

-- Over the letters of the text: a search through all characters would not end here.
instance : DecidablePred IsGap := fun text =>
  (List.decidableBAll _ text : Decidable (∀ c ∈ text, c ∈ [' ', '\t', '\n', '\r']))

/-- The letters of short escapes, with the characters that they stand for. -/
def shortEscapes : List (Char × Char) :=
  [('"', '"'), ('\\', '\\'), ('/', '/'), ('b', '\x08'), ('f', '\x0c'), ('n', '\n'), ('r', '\r'),
    ('t', '\t')]

def hexDigits : List Char := "0123456789abcdefABCDEF".toList

/-- The number that hexadecimal digits write. -/
def hexValue (digits : List Char) : Nat :=
  digits.foldl (fun value digit => 16 * value + "0123456789abcdef".toList.idxOf digit.toLower) 0

/-- What may be written for one element of a string. -/
inductive SpellsUnit : List Char → StringUnit → Prop
  | plain {c : Char} (hquote : c ≠ '"') (hslash : c ≠ '\\') (hc : ¬ IsControl c) :
      SpellsUnit [c] (.scalar c)
  | short {letter c : Char} (h : (letter, c) ∈ shortEscapes) :
      SpellsUnit ['\\', letter] (.scalar c)
  | number {a b c d : Char} (h : ∀ digit ∈ [a, b, c, d], digit ∈ hexDigits) :
      SpellsUnit ['\\', 'u', a, b, c, d] (.codeUnit (hexValue [a, b, c, d]))

/-- What may stand between the quotes of a string. -/
inductive SpellsUnits : List Char → List StringUnit → Prop
  | nil : SpellsUnits [] []
  | cons {piece rest : List Char} {unit : StringUnit} {units : List StringUnit}
      (h : SpellsUnit piece unit) (hrest : SpellsUnits rest units) :
      SpellsUnits (piece ++ rest) (unit :: units)

def IsDigits (text : List Char) : Prop := text ≠ [] ∧ ∀ c ∈ text, c.isDigit = true

instance : DecidablePred IsDigits := fun text =>
  haveI : Decidable (∀ c ∈ text, c.isDigit = true) := List.decidableBAll _ text
  inferInstanceAs (Decidable (text ≠ [] ∧ ∀ c ∈ text, c.isDigit = true))

/-- The part of a number before its point: a leading zero stands alone. -/
def IsWhole (text : List Char) : Prop := text = ['0'] ∨ IsDigits text ∧ text.head? ≠ some '0'

def IsFraction (text : List Char) : Prop :=
  text = [] ∨ ∃ digits, IsDigits digits ∧ text = '.' :: digits

def IsExponent (text : List Char) : Prop :=
  text = [] ∨ ∃ letter ∈ ['e', 'E'], ∃ sign ∈ [[], ['+'], ['-']], ∃ digits, IsDigits digits ∧
    text = letter :: (sign ++ digits)

def IsNumber (text : List Char) : Prop :=
  ∃ sign ∈ [[], ['-']], ∃ whole fraction exponent, IsWhole whole ∧ IsFraction fraction ∧
    IsExponent exponent ∧ text = sign ++ (whole ++ fraction ++ exponent)

/-! ## Values -/

/-- A text that stands for something, with the white space around it. -/
structure Item (α : Type) where
  before : List Char
  text : List Char
  after : List Char
  value : α

/-- A name between quotes and, behind a colon, the value under it. -/
structure Member where
  before : List Char
  name : List Char
  key : List StringUnit
  after : List Char
  item : Item Json

section Item

variable {α : Type}

def Item.written (item : Item α) : List Char := item.before ++ (item.text ++ item.after)

structure Item.IsSpaced (item : Item α) : Prop where
  before : IsGap item.before
  after : IsGap item.after

theorem Item.length_written (item : Item α) :
    item.written.length = item.before.length + (item.text.length + item.after.length) := by
  simp [Item.written]

end Item

def Member.written (member : Member) : List Char :=
  member.before ++ '"' :: (member.name ++ '"' :: (member.after ++ ':' :: member.item.written))

structure Member.IsSpaced (member : Member) : Prop where
  before : IsGap member.before
  name : SpellsUnits member.name member.key
  after : IsGap member.after
  item : member.item.IsSpaced

def Member.entry (member : Member) : List StringUnit × Json := (member.key, member.item.value)

/-- What may be written for a value. -/
inductive Spells : List Char → Json → Prop
  | null : Spells "null".toList .null
  | yes : Spells "true".toList (.boolean true)
  | no : Spells "false".toList (.boolean false)
  | number {digits : List Char} (h : IsNumber digits) : Spells digits (.number digits)
  | string {text : List Char} {units : List StringUnit} (h : SpellsUnits text units) :
      Spells ('"' :: (text ++ ['"'])) (.string units)
  | array {gap : List Char} {items : List (Item Json)} (hgap : IsGap gap)
      (hspaced : ∀ item ∈ items, item.IsSpaced)
      (h : ∀ item ∈ items, Spells item.text item.value) :
      Spells ('[' :: (gap ++ ([','].intercalate (items.map Item.written) ++ [']'])))
        (.array (items.map Item.value))
  | object {gap : List Char} {members : List Member} (hgap : IsGap gap)
      (hspaced : ∀ member ∈ members, member.IsSpaced)
      (h : ∀ member ∈ members, Spells member.item.text member.item.value) :
      Spells ('\x7b' :: (gap ++ ([','].intercalate (members.map Member.written) ++ ['\x7d'])))
        (.object (members.map Member.entry))

/-! ## Reading tokens -/

theorem isSpace_iff {c : Char} : isSpace c = true ↔ c ∈ [' ', '\t', '\n', '\r'] := by
  simp [isSpace, or_assoc]

theorem IsGap.skipSpace_append {gap : List Char} (h : IsGap gap) (rest : List Char) :
    skipSpace (gap ++ rest) = skipSpace rest :=
  List.dropWhile_append_of_pos fun c hc => isSpace_iff.2 (h c hc)

theorem isGap_nil : IsGap [] := by simp [IsGap]

theorem skipSpace_cons {c : Char} (hc : isSpace c = false) (rest : List Char) :
    skipSpace (c :: rest) = c :: rest :=
  List.dropWhile_cons_of_neg (by simp [hc])

/-! ### Strings -/

theorem shortEscape?_of_mem {letter c : Char} (h : (letter, c) ∈ shortEscapes) :
    shortEscape? letter = some c := by
  have hall : ∀ pair ∈ shortEscapes, shortEscape? pair.1 = some pair.2 := by decide
  exact hall _ h

theorem hexNumber?_of_hexDigits {digits : List Char} (h : ∀ digit ∈ digits, digit ∈ hexDigits) :
    hexNumber? digits = some (hexValue digits) := by
  have hall : hexDigits.all fun digit =>
      hexDigit? digit == some ("0123456789abcdef".toList.idxOf digit.toLower) := by decide
  simp only [List.all_eq_true, beq_iff_eq] at hall
  unfold hexNumber? hexValue
  generalize 0 = start
  induction digits generalizing start with
  | nil => rfl
  | cons digit rest ih =>
    rw [List.foldlM_cons, hall digit (h digit (List.mem_cons_self ..))]
    exact ih (fun d hd => h d (List.mem_cons_of_mem _ hd)) _

/-- The reader on what is written for one element of a string. -/
theorem SpellsUnit.readString_append {piece : List Char} {unit : StringUnit}
    (h : SpellsUnit piece unit) (rest : List Char) :
    readString (piece ++ rest) =
      (readString rest).map fun part => (unit :: part.1, part.2) := by
  cases h with
  | @plain c hquote hslash hc =>
    have hnone : ¬ (c = '\\' ∨ c.toNat < 0x20) := not_or.2 ⟨hslash, hc⟩
    rw [List.singleton_append, readString, if_neg hnone]
    · cases readString rest <;> rfl
    · exact hquote
    · exact fun _ _ _ _ _ he => absurd he hslash
    · exact fun _ _ he => absurd he hslash
  | @short letter c h =>
    have hread := shortEscape?_of_mem h
    have hne : letter ≠ 'u' := by
      rintro rfl
      cases hread
    rw [List.cons_append, List.singleton_append, readString, hread]
    · cases readString rest <;> rfl
    · exact fun _ _ _ _ _ he => absurd he hne
  | number h =>
    simp only [List.cons_append, List.nil_append, readString, hexNumber?_of_hexDigits h]
    cases readString rest <;> rfl

theorem SpellsUnits.readString_append {text : List Char} {units : List StringUnit}
    (h : SpellsUnits text units) (rest : List Char) :
    readString (text ++ '"' :: rest) = some (units, rest) := by
  induction h with
  | nil => rfl
  | cons h _ ih => rw [List.append_assoc, h.readString_append, ih]; rfl

/-! ### Numbers -/

/-- A text that starts with one of some letters, or is empty. -/
def StartsIn (letters text : List Char) : Prop := ∀ c ∈ text.head?, c ∈ letters

/-- What can follow a value. -/
def closers : List Char := [' ', '\t', '\n', '\r', ',', ']', '\x7d']

theorem readDigits_append {digits rest letters : List Char} (h : IsDigits digits)
    (hr : StartsIn letters rest) (hl : ∀ c ∈ letters, c.isDigit = false) :
    readDigits (digits ++ rest) = some (digits, rest) := by
  have hstop : rest.takeWhile Char.isDigit = [] ∧ rest.dropWhile Char.isDigit = rest := by
    cases rest with
    | nil => exact ⟨rfl, rfl⟩
    | cons c tail =>
      have hc : c.isDigit = false := hl c (hr c rfl)
      simp [hc]
  obtain ⟨c, tail, rfl⟩ := List.exists_cons_of_ne_nil h.1
  rw [readDigits, List.takeWhile_append_of_pos h.2, List.dropWhile_append_of_pos h.2, hstop.1,
    hstop.2, List.append_nil]

theorem readWhole_append {whole rest letters : List Char} (h : IsWhole whole)
    (hr : StartsIn letters rest) (hl : ∀ c ∈ letters, c.isDigit = false) :
    readWhole (whole ++ rest) = some (whole, rest) := by
  rcases h with rfl | ⟨hdigits, hzero⟩
  · rfl
  · have hread := readDigits_append hdigits hr hl
    unfold readWhole
    split
    · rename_i tail he
      obtain ⟨c, digits, rfl⟩ := List.exists_cons_of_ne_nil hdigits.1
      cases he
      exact absurd rfl hzero
    · exact hread

theorem readFraction_append {fraction rest letters : List Char} (h : IsFraction fraction)
    (hr : StartsIn letters rest) (hl : ∀ c ∈ letters, c.isDigit = false ∧ c ≠ '.') :
    readFraction (fraction ++ rest) = some (fraction, rest) := by
  rcases h with rfl | ⟨digits, hdigits, rfl⟩
  · rw [List.nil_append]
    unfold readFraction
    split
    · exact absurd rfl (hl '.' (hr '.' rfl)).2
    · rfl
  · rw [List.cons_append, readFraction, readDigits_append hdigits hr fun c hc => (hl c hc).1]
    rfl

theorem readExponent_append {exponent rest letters : List Char} (h : IsExponent exponent)
    (hr : StartsIn letters rest)
    (hl : ∀ c ∈ letters, c.isDigit = false ∧ c ≠ 'e' ∧ c ≠ 'E') :
    readExponent (exponent ++ rest) = some (exponent, rest) := by
  rcases h with rfl | ⟨letter, hletter, sign, hsign, digits, hdigits, rfl⟩
  · cases rest with
    | nil => rfl
    | cons c tail =>
      have hc : ¬ (c = 'e' ∨ c = 'E') := not_or.2 (hl c (hr c rfl)).2
      simp [readExponent.eq_def, hc]
  · have hread := readDigits_append hdigits hr fun c hc => (hl c hc).1
    have he : letter = 'e' ∨ letter = 'E' := by simpa using hletter
    obtain ⟨c, tail, rfl⟩ := List.exists_cons_of_ne_nil hdigits.1
    have hc : c.isDigit = true := hdigits.2 c (List.mem_cons_self ..)
    have hplus : c ≠ '+' := by rintro rfl; cases hc
    have hminus : c ≠ '-' := by rintro rfl; cases hc
    rw [List.cons_append] at hread
    simp only [List.mem_cons, List.not_mem_nil, or_false] at hsign
    rcases hsign with rfl | rfl | rfl <;>
      simp [readExponent.eq_def, he, hread, hplus, hminus]

theorem IsFraction.startsIn_append {fraction rest letters : List Char} (h : IsFraction fraction)
    (hr : StartsIn letters rest) : StartsIn ('.' :: letters) (fraction ++ rest) := by
  rcases h with rfl | ⟨digits, -, rfl⟩
  · exact fun c hc => List.mem_cons_of_mem _ (hr c hc)
  · rintro c ⟨⟩
    exact List.mem_cons_self ..

theorem IsExponent.startsIn_append {exponent rest letters : List Char} (h : IsExponent exponent)
    (hr : StartsIn letters rest) : StartsIn ('e' :: 'E' :: letters) (exponent ++ rest) := by
  rcases h with rfl | ⟨letter, hletter, sign, -, digits, -, rfl⟩
  · exact fun c hc => List.mem_cons_of_mem _ (List.mem_cons_of_mem _ (hr c hc))
  · rintro c ⟨⟩
    exact List.mem_append_left letters hletter

theorem IsWhole.exists_digit {whole : List Char} (h : IsWhole whole) :
    ∃ c tail, whole = c :: tail ∧ c.isDigit = true := by
  rcases h with rfl | ⟨⟨hne, hdigits⟩, -⟩
  · exact ⟨'0', [], rfl, rfl⟩
  · obtain ⟨c, tail, rfl⟩ := List.exists_cons_of_ne_nil hne
    exact ⟨c, tail, rfl, hdigits c (List.mem_cons_self ..)⟩

theorem readUnsigned_append {whole fraction exponent rest : List Char} (hw : IsWhole whole)
    (hf : IsFraction fraction) (he : IsExponent exponent) (hr : StartsIn closers rest) :
    readUnsigned (whole ++ fraction ++ exponent ++ rest) =
      some (whole ++ fraction ++ exponent, rest) := by
  have hexponent := he.startsIn_append hr
  have hfraction := hf.startsIn_append hexponent
  rw [List.append_assoc, List.append_assoc, readUnsigned,
    readWhole_append hw hfraction (by simp [closers])]
  simp only [Option.bind_eq_bind, Option.bind_some,
    readFraction_append hf hexponent (by simp [closers]),
    readExponent_append he hr (by simp [closers])]
  rfl

/-- A number is read up to its end. -/
theorem IsNumber.readNumber_append {digits rest : List Char} (h : IsNumber digits)
    (hr : StartsIn closers rest) : readNumber (digits ++ rest) = some (digits, rest) := by
  obtain ⟨sign, hsign, whole, fraction, exponent, hw, hf, he, rfl⟩ := h
  have hread := readUnsigned_append hw hf he hr
  simp only [List.mem_cons, List.not_mem_nil, or_false] at hsign
  rcases hsign with rfl | rfl
  · obtain ⟨c, tail, rfl, hc⟩ := hw.exists_digit
    have hminus : c ≠ '-' := by rintro rfl; cases hc
    rw [List.nil_append]
    unfold readNumber
    split
    · rename_i he
      exact absurd (List.cons.inj he).1 hminus
    · exact hread
  · rw [List.singleton_append, List.cons_append, readNumber, hread]
    rfl

/-! ## Reading values -/

/-- A text is read as a value, whatever stands behind it that can follow a value. -/
structure Reads (text : List Char) (value : Json) : Prop where
  opens : ∃ c tail, text = c :: tail ∧ isSpace c = false ∧ c ≠ ']'
  reads : ∀ fuel rest, text.length ≤ fuel → StartsIn closers rest →
    readValue fuel (text ++ rest) = some (value, rest)

variable {text : List Char} {value : Json}

/-- The first letter tells a number from all other values. -/
theorem reads_number (h : IsNumber text) : Reads text (.number text) := by
  have hfirst : ∃ c tail, text = c :: tail ∧ (c = '-' ∨ c.isDigit = true) := by
    obtain ⟨sign, hsign, whole, fraction, exponent, hw, -, -, rfl⟩ := h
    simp only [List.mem_cons, List.not_mem_nil, or_false] at hsign
    rcases hsign with rfl | rfl
    · obtain ⟨c, tail, rfl, hc⟩ := hw.exists_digit
      exact ⟨c, _, rfl, .inr hc⟩
    · exact ⟨'-', _, rfl, .inl rfl⟩
  obtain ⟨c, tail, rfl, hc⟩ := hfirst
  have hne (d : Char) (hd : d ≠ '-' ∧ d.isDigit = false) : c ≠ d := by
    rintro rfl
    exact hc.elim hd.1 (by simp [hd.2])
  refine ⟨⟨c, tail, rfl, ?_, hne _ (by decide)⟩, ?_⟩
  · rw [Bool.eq_false_iff, ne_eq, isSpace_iff]
    simp only [List.mem_cons, List.not_mem_nil, or_false, not_or]
    exact ⟨hne _ (by decide), hne _ (by decide), hne _ (by decide), hne _ (by decide)⟩
  · rintro (_ | fuel) rest hfuel hr
    · simp at hfuel
    · have hread := h.readNumber_append hr
      rw [List.cons_append] at hread ⊢
      unfold readValue
      split
      case h_1 => contradiction
      case h_8 => rw [hread]; rfl
      all_goals
        rename_i he
        exact absurd (List.cons.inj he).1 (hne _ (by decide))

theorem reads_string {units : List StringUnit} (h : SpellsUnits text units) :
    Reads ('"' :: (text ++ ['"'])) (.string units) where
  opens := ⟨'"', _, rfl, rfl, by decide⟩
  reads := by
    rintro (_ | fuel) rest hfuel -
    · simp at hfuel
    · have hread := h.readString_append rest
      simp only [List.cons_append, List.append_assoc, List.nil_append, readValue, hread]
      rfl

theorem IsGap.startsIn_append {gap rest : List Char} (h : IsGap gap)
    (hr : StartsIn closers rest) : StartsIn closers (gap ++ rest) := by
  cases gap with
  | nil => exact hr
  | cons c tail =>
    rintro d ⟨⟩
    exact List.mem_append_left [',', ']', '\x7d'] (h c (List.mem_cons_self ..))

/-- A value in front of a token: it is read up to its end, and the token behind it is found. -/
theorem Reads.readValue_append (h : Reads text value) {gap : List Char} (hgap : IsGap gap) (c : Char)
    (hc : c ∈ [',', ']', '\x7d']) {fuel : Nat} (hfuel : text.length ≤ fuel) (rest : List Char) :
    readValue fuel (text ++ (gap ++ c :: rest)) = some (value, gap ++ c :: rest) ∧
      skipSpace (gap ++ c :: rest) = c :: rest := by
  have hspace : ∀ d ∈ [',', ']', '\x7d'], isSpace d = false := by simp [isSpace]
  have hfollows : StartsIn closers (c :: rest) := by
    rintro d ⟨⟩
    exact List.mem_append_right [' ', '\t', '\n', '\r'] hc
  refine ⟨h.reads fuel _ hfuel (hgap.startsIn_append hfollows), ?_⟩
  rw [hgap.skipSpace_append, skipSpace_cons (hspace c hc)]

/-! ### Sequences

The items of an array and the members of an object are read in the same way. -/

section Sequence

variable {α : Type} {read : Nat → List Char → Option (List α × List Char)} {close : Char}

/-- What a reader of sequences does at an item: behind the last one it stops, and behind a comma it
goes on. -/
structure Passes (read : Nat → List Char → Option (List α × List Char)) (close : Char)
    (item : Item α) : Prop where
  opens : ∃ c tail, item.text = c :: tail ∧ isSpace c = false ∧ c ≠ close
  last : ∀ fuel rest, item.text.length ≤ fuel →
    read (fuel + 1) (item.text ++ (item.after ++ close :: rest)) = some ([item.value], rest)
  next : ∀ fuel rest, item.text.length ≤ fuel →
    read (fuel + 1) (item.text ++ (item.after ++ ',' :: rest)) =
      (read fuel (skipSpace rest)).map fun part => (item.value :: part.1, part.2)

/-- The white space before an item is skipped. -/
theorem Passes.skipSpace_append {item : Item α} (h : Passes read close item)
    (hspaced : item.IsSpaced) (rest : List Char) :
    skipSpace (item.written ++ rest) = item.text ++ (item.after ++ rest) := by
  obtain ⟨c, tail, htext, hspace, -⟩ := h.opens
  rw [Item.written, List.append_assoc, List.append_assoc, hspaced.before.skipSpace_append, htext,
    List.cons_append, skipSpace_cons hspace]

/-- An item and those behind it, each with a comma before it, are read up to the bracket. -/
theorem read_append {item : Item α} {items : List (Item α)}
    (hspaced : ∀ other ∈ item :: items, other.IsSpaced)
    (h : ∀ other ∈ item :: items, Passes read close other) (fuel : Nat)
    (hfuel : (item.text ++ (item.after ++ items.flatMap (',' :: ·.written))).length < fuel)
    (rest : List Char) :
    read fuel (item.text ++ (item.after ++ (items.flatMap (',' :: ·.written) ++ close :: rest))) =
      some ((item :: items).map Item.value, rest) := by
  have hitem := h item (List.mem_cons_self ..)
  induction items generalizing item fuel with
  | nil =>
    cases fuel with
    | zero => exact absurd hfuel (Nat.not_lt_zero _)
    | succ fuel =>
      simp only [List.flatMap_nil, List.append_nil, List.length_append] at hfuel
      exact hitem.last fuel rest (by omega)
  | cons next items ih =>
    cases fuel with
    | zero => exact absurd hfuel (Nat.not_lt_zero _)
    | succ fuel =>
      have hnext := h next (List.mem_cons_of_mem _ (List.mem_cons_self ..))
      have hskip := hnext.skipSpace_append
        (hspaced next (List.mem_cons_of_mem _ (List.mem_cons_self ..)))
        (items.flatMap (',' :: ·.written) ++ close :: rest)
      simp only [List.flatMap_cons, List.length_append, List.length_cons, Item.length_written]
        at hfuel
      have hitems := ih (fun other ho => hspaced other (List.mem_cons_of_mem _ ho))
        (fun other ho => h other (List.mem_cons_of_mem _ ho)) fuel
        (by simp only [List.length_append]; omega) hnext
      rw [List.flatMap_cons, List.cons_append, List.cons_append, List.append_assoc,
        hitem.next fuel _ (by omega), hskip, hitems]
      rfl

/-- Between brackets there is white space only, or a first item starts behind it and all are read. -/
theorem read_inside {gap : List Char} {items : List (Item α)} (hgap : IsGap gap)
    (hc : isSpace close = false) (hspaced : ∀ item ∈ items, item.IsSpaced)
    (h : ∀ item ∈ items, Passes read close item) (fuel : Nat)
    (hfuel : ([','].intercalate (items.map Item.written)).length < fuel) (rest : List Char) :
    let inside := gap ++ ([','].intercalate (items.map Item.written) ++ close :: rest)
    items = [] ∧ skipSpace inside = close :: rest ∨
      ∃ c tail, c ≠ close ∧ skipSpace inside = c :: tail ∧
        read fuel (c :: tail) = some (items.map Item.value, rest) := by
  intro inside
  have hinside : skipSpace inside =
      skipSpace ([','].intercalate (items.map Item.written) ++ close :: rest) :=
    hgap.skipSpace_append _
  cases items with
  | nil => exact .inl ⟨rfl, hinside.trans (skipSpace_cons hc rest)⟩
  | cons item items =>
    have hitem := h item (List.mem_cons_self ..)
    have hwritten : [','].intercalate ((item :: items).map Item.written) =
        item.written ++ items.flatMap (',' :: ·.written) := by
      rw [List.map_cons, intercalate_cons, List.flatMap_map]
      rfl
    rw [hwritten, List.append_assoc,
      hitem.skipSpace_append (hspaced item (List.mem_cons_self ..))] at hinside
    rw [hwritten] at hfuel
    simp only [List.length_append, Item.length_written] at hfuel
    have hread := read_append hspaced h fuel
      (by simp only [List.length_append]; omega) rest
    obtain ⟨c, tail, htext, -, hne⟩ := hitem.opens
    rw [htext, List.cons_append] at hinside hread
    exact .inr ⟨c, _, hne, hinside, hread⟩

end Sequence

/-! ### Arrays and objects -/

theorem Reads.passes {item : Item Json} (h : Reads item.text item.value) (hs : item.IsSpaced) :
    Passes readItems ']' item where
  opens := h.opens
  last fuel rest hfuel := by
    obtain ⟨hvalue, hclose⟩ := h.readValue_append hs.after ']' (by decide) hfuel rest
    simp only [readItems, hvalue, hclose, Option.bind_eq_bind, Option.bind_some]
    rfl
  next fuel rest hfuel := by
    obtain ⟨hvalue, hcomma⟩ := h.readValue_append hs.after ',' (by decide) hfuel rest
    simp only [readItems, hvalue, hcomma, Option.bind_eq_bind, Option.bind_some]
    cases readItems fuel (skipSpace rest) <;> rfl

/-- A member as an item of a sequence. -/
def Member.asItem (member : Member) : Item (List StringUnit × Json) where
  before := member.before
  text := '"' :: (member.name ++ '"' :: (member.after ++ ':' ::
    (member.item.before ++ member.item.text)))
  after := member.item.after
  value := member.entry

theorem Member.written_asItem (member : Member) : member.asItem.written = member.written := by
  simp [Member.asItem, Member.written, Item.written]

theorem Reads.skipSpace_append (h : Reads text value) {gap : List Char} (hgap : IsGap gap)
    (rest : List Char) : skipSpace (gap ++ (text ++ rest)) = text ++ rest := by
  obtain ⟨c, tail, rfl, hspace, -⟩ := h.opens
  rw [hgap.skipSpace_append, List.cons_append, skipSpace_cons hspace]

theorem Member.IsSpaced.passes {member : Member} (hs : member.IsSpaced)
    (h : Reads member.item.text member.item.value) : Passes readMembers '\x7d' member.asItem := by
  -- the name is read up to its quote, and behind the colon the value is found
  have hname (rest : List Char) := hs.name.readString_append
    (member.after ++ ':' :: (member.item.before ++ (member.item.text ++ rest)))
  have hcolon (rest : List Char) : skipSpace (member.after ++ ':' :: rest) = ':' :: rest := by
    rw [hs.after.skipSpace_append, skipSpace_cons (by decide)]
  have hlength : member.item.text.length ≤ member.asItem.text.length := by
    simp only [Member.asItem, List.length_cons, List.length_append]
    omega
  refine ⟨⟨'"', _, rfl, rfl, by decide⟩, fun fuel rest hfuel => ?_, fun fuel rest hfuel => ?_⟩
  · obtain ⟨hvalue, hclose⟩ :=
      h.readValue_append hs.item.after '\x7d' (by decide) (Nat.le_trans hlength hfuel) rest
    simp only [Member.asItem, List.cons_append, List.append_assoc, readMembers, hname, hcolon,
      h.skipSpace_append hs.item.before, hvalue, hclose, Option.bind_eq_bind, Option.bind_some]
    rfl
  · obtain ⟨hvalue, hcomma⟩ :=
      h.readValue_append hs.item.after ',' (by decide) (Nat.le_trans hlength hfuel) rest
    simp only [Member.asItem, List.cons_append, List.append_assoc, readMembers, hname, hcolon,
      h.skipSpace_append hs.item.before, hvalue, hcomma, Option.bind_eq_bind, Option.bind_some]
    cases readMembers fuel (skipSpace rest) <;> rfl

theorem reads_array {gap : List Char} {items : List (Item Json)} (hgap : IsGap gap)
    (hspaced : ∀ item ∈ items, item.IsSpaced) (hread : ∀ item ∈ items, Reads item.text item.value) :
    Reads ('[' :: (gap ++ ([','].intercalate (items.map Item.written) ++ [']'])))
      (.array (items.map Item.value)) where
  opens := ⟨'[', _, rfl, rfl, by decide⟩
  reads := by
    rintro (_ | fuel) rest hfuel -
    · simp at hfuel
    · simp only [List.length_cons, List.length_append] at hfuel
      simp only [List.cons_append, List.append_assoc, List.nil_append, readValue]
      rcases read_inside hgap rfl hspaced (fun item hm => (hread item hm).passes (hspaced item hm))
        fuel (by omega) rest with ⟨rfl, hclose⟩ | ⟨c, tail, hne, hinside, hitems⟩
      · rw [hclose]
        rfl
      · rw [hinside]
        split
        · rename_i he
          exact absurd (List.cons.inj he).1 hne
        · rw [hitems]
          rfl

theorem reads_object {gap : List Char} {members : List Member} (hgap : IsGap gap)
    (hspaced : ∀ member ∈ members, member.IsSpaced)
    (hread : ∀ member ∈ members, Reads member.item.text member.item.value) :
    Reads ('\x7b' :: (gap ++ ([','].intercalate (members.map Member.written) ++ ['\x7d'])))
      (.object (members.map Member.entry)) where
  opens := ⟨'\x7b', _, rfl, rfl, by decide⟩
  reads := by
    have hwritten : members.map Member.written = (members.map Member.asItem).map Item.written := by
      simp [Member.written_asItem]
    have hentry : members.map Member.entry = (members.map Member.asItem).map Item.value := by
      simp [Member.asItem]
    have hitems : ∀ item ∈ members.map Member.asItem,
        item.IsSpaced ∧ Passes readMembers '\x7d' item := by
      rw [List.forall_mem_map]
      intro member hm
      have hs := hspaced member hm
      exact ⟨⟨hs.before, hs.item.after⟩, hs.passes (hread member hm)⟩
    rintro (_ | fuel) rest hfuel -
    · simp at hfuel
    · simp only [List.length_cons, List.length_append, hwritten] at hfuel
      simp only [List.cons_append, List.append_assoc, List.nil_append, readValue, hwritten, hentry]
      rcases read_inside hgap rfl (fun item hm => (hitems item hm).1)
        (fun item hm => (hitems item hm).2) fuel (by omega) rest with
        ⟨hnil, hclose⟩ | ⟨c, tail, hne, hinside, hmembers⟩
      · rw [hclose, hnil]
        rfl
      · rw [hinside]
        split
        · rename_i he
          exact absurd (List.cons.inj he).1 hne
        · rw [hmembers]
          rfl

/-- Whatever the grammar allows is read as the value that is written. -/
theorem Spells.reads (h : Spells text value) : Reads text value := by
  induction h with
  | null | yes | no =>
    refine ⟨⟨_, _, rfl, rfl, by decide⟩, ?_⟩
    rintro (_ | fuel) rest hfuel -
    · simp at hfuel
    · rfl
  | number h => exact reads_number h
  | string h => exact reads_string h
  | array hgap hspaced _ ih => exact reads_array hgap hspaced ih
  | object hgap hspaced _ ih => exact reads_object hgap hspaced ih

/-- A text that holds a value and white space around it is read as this value. -/
theorem parse?_of_spells {before after : List Char} (hb : IsGap before) (h : Spells text value)
    (ha : IsGap after) : parse? (String.ofList (before ++ (text ++ after))) = some value := by
  have hfollows : StartsIn closers after := by
    have hnothing : StartsIn closers [] := fun c hc => by cases hc
    have hgap := ha.startsIn_append hnothing
    rwa [List.append_nil] at hgap
  have hskip := h.reads.skipSpace_append hb after
  have hread := h.reads.reads (2 * (before ++ (text ++ after)).length + 2) after
    (by simp only [List.length_append]; omega) hfollows
  have hend : skipSpace after = [] := by
    have hgap := ha.skipSpace_append []
    rwa [List.append_nil] at hgap
  simp only [parse?, String.toList_ofList, hskip, hread, Option.bind_eq_bind, Option.bind_some, hend]
  rfl

end EsmCompletion.Json
