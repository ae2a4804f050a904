import FondacoFormal.Library.Text
import Mathlib.Order.Lattice

/-!
# JSON texts

Values, the text of a value as `encoding/json` writes it, and a parser.  Numbers keep
their literal.  The parser gives back every value whose numbers are literals of the
grammar; it has no limit on nesting, where `encoding/json` stops at 10000 levels.
-/

namespace FondacoFormal.Library

inductive Json where
  | null
  | bool (b : Bool)
  | num (literal : String)
  | str (s : String)
  | arr (items : List Json)
  | obj (fields : List (String × Json))

variable {fields : List (String × Json)} {tail : List Char} {letter : Char}

namespace Json

/-! ## Printing -/

def hexDigit (n : Nat) : Char :=
  if n < 10 then Char.ofNat (48 + n) else Char.ofNat (87 + n)

def hexDigits (n : Nat) : List Char :=
  [hexDigit (n / 4096 % 16), hexDigit (n / 256 % 16), hexDigit (n / 16 % 16), hexDigit (n % 16)]

def shortEscapes : List (Char × Char) :=
  [('\x22', '\x22'), ('\\', '\\'), ('\x08', 'b'), ('\x0c', 'f'), ('\n', 'n'), ('\x0d', 'r'),
    ('\t', 't')]

def shortEscape (c : Char) : Option Char :=
  (shortEscapes.find? fun pair => pair.1 = c).map Prod.snd

/-- Characters that are written as a code: control characters, the characters of HTML markup
and the two line separators of Unicode. -/
def coded (c : Char) : Bool :=
  c.toNat < 32 || c = '<' || c = '>' || c = '&' || c.toNat = 8232 || c.toNat = 8233

def escapeChar (c : Char) : List Char :=
  match shortEscape c with
  | some letter => ['\\', letter]
  | none => if coded c then '\\' :: 'u' :: hexDigits c.toNat else [c]

def quoted (s : String) : List Char :=
  '\x22' :: s.toList.flatMap escapeChar ++ ['\x22']

mutual

/-- `json.Marshal`. -/
def render : Json → List Char
  | null => ['n', 'u', 'l', 'l']
  | bool true => ['t', 'r', 'u', 'e']
  | bool false => ['f', 'a', 'l', 's', 'e']
  | num literal => literal.toList
  | str s => quoted s
  | arr items => '[' :: renderItems items ++ [']']
  | obj fields => '\x7b' :: renderFields fields ++ ['\x7d']

def renderItems : List Json → List Char
  | [] => []
  | item :: rest =>
    match rest with
    | [] => render item
    | _ :: _ => render item ++ ',' :: renderItems rest

def renderFields : List (String × Json) → List Char
  | [] => []
  | (key, value) :: rest =>
    match rest with
    | [] => quoted key ++ ':' :: render value
    | _ :: _ => quoted key ++ ':' :: render value ++ ',' :: renderFields rest

end

/-! ## Parsing -/

def isSpace (c : Char) : Bool :=
  c = ' ' || c = '\t' || c = '\n' || c = '\x0d'

def skipSpace (s : List Char) : List Char :=
  s.dropWhile isSpace

def hexValue (c : Char) : Option Nat :=
  if '0' ≤ c ∧ c ≤ '9' then some (c.toNat - 48)
  else if 'a' ≤ c ∧ c ≤ 'f' then some (c.toNat - 87)
  else if 'A' ≤ c ∧ c ≤ 'F' then some (c.toNat - 55)
  else none

def hexNumber (a b c d : Char) : Option Nat := do
  let a ← hexValue a
  let b ← hexValue b
  let c ← hexValue c
  let d ← hexValue d
  pure (4096 * a + 256 * b + 16 * c + d)

def unescapeLetter (letter : Char) : Option Char :=
  if letter = '/' then some '/'
  else (shortEscapes.find? fun pair => pair.2 = letter).map Prod.fst

def parseUnits : List Char → Option (List (Char ⊕ Nat) × List Char)
  | [] => none
  | '\\' :: 'u' :: a :: b :: c :: d :: rest =>
    match hexNumber a b c d with
    | none => none
    | some code => (parseUnits rest).map fun parts => (.inr code :: parts.1, parts.2)
  | '\\' :: letter :: rest =>
    match unescapeLetter letter with
    | none => none
    | some c => (parseUnits rest).map fun parts => (.inl c :: parts.1, parts.2)
  | c :: rest =>
    if c = '\x22' then some ([], rest)
    else if c.toNat < 32 || c = '\\' then none
    else (parseUnits rest).map fun parts => (.inl c :: parts.1, parts.2)

def codeChar (code : Nat) : Char :=
  if 55296 ≤ code ∧ code < 57344 then Char.ofNat 65533 else Char.ofNat code

def isHigh (code : Nat) : Bool :=
  55296 ≤ code && code < 56320

def isLow (code : Nat) : Bool :=
  56320 ≤ code && code < 57344

def joinUnits : Option Nat → List (Char ⊕ Nat) → List Char
  | none, [] => []
  | some high, [] => [codeChar high]
  | none, .inl c :: rest => c :: joinUnits none rest
  | some high, .inl c :: rest => codeChar high :: c :: joinUnits none rest
  | none, .inr code :: rest =>
    if isHigh code then joinUnits (some code) rest else codeChar code :: joinUnits none rest
  | some high, .inr code :: rest =>
    if isLow code then
      Char.ofNat (65536 + (high - 55296) * 1024 + (code - 56320)) :: joinUnits none rest
    else if isHigh code then codeChar high :: joinUnits (some code) rest
    else codeChar high :: codeChar code :: joinUnits none rest

def parseString (s : List Char) : Option (String × List Char) :=
  (parseUnits s).map fun parts => (String.ofList (joinUnits none parts.1), parts.2)

def digits (s : List Char) : Option (List Char) :=
  if s.head?.any Char.isDigit then some (s.dropWhile Char.isDigit) else none

def fraction : List Char → Option (List Char)
  | '.' :: rest => digits rest
  | rest => some rest

def exponent : List Char → Option (List Char)
  | c :: rest =>
    if c = 'e' || c = 'E' then
      match rest with
      | '+' :: more => digits more
      | '-' :: more => digits more
      | more => digits more
    else some (c :: rest)
  | [] => some []

def integer : List Char → Option (List Char)
  | '0' :: rest => some rest
  | rest => digits rest

def isNumber (s : List Char) : Bool :=
  let unsigned := if s.head? = some '-' then s.drop 1 else s
  (integer unsigned >>= fraction >>= exponent) = some []

def isAtomChar (c : Char) : Bool :=
  c.isAlphanum || c = '+' || c = '-' || c = '.'

def atom (word : List Char) : Option Json :=
  if word = ['n', 'u', 'l', 'l'] then some null
  else if word = ['t', 'r', 'u', 'e'] then some (bool true)
  else if word = ['f', 'a', 'l', 's', 'e'] then some (bool false)
  else if isNumber word then some (num (String.ofList word))
  else none

mutual

def parseValue : Nat → List Char → Option (Json × List Char)
  | 0, _ => none
  | fuel + 1, s =>
    match skipSpace s with
    | [] => none
    | c :: rest =>
      if c = '\x22' then (parseString rest).map fun parts => (str parts.1, parts.2)
      else if c = '[' then
        match skipSpace rest with
        | ']' :: more => some (arr [], more)
        | more => (parseItems fuel more).map fun parts => (arr parts.1, parts.2)
      else if c = '\x7b' then
        match skipSpace rest with
        | '\x7d' :: more => some (obj [], more)
        | more => (parseFields fuel more).map fun parts => (obj parts.1, parts.2)
      else
        (atom ((c :: rest).takeWhile isAtomChar)).map fun value =>
          (value, (c :: rest).dropWhile isAtomChar)

def parseItems : Nat → List Char → Option (List Json × List Char)
  | 0, _ => none
  | fuel + 1, s =>
    match parseValue fuel s with
    | none => none
    | some (value, rest) =>
      match skipSpace rest with
      | ',' :: more => (parseItems fuel more).map fun parts => (value :: parts.1, parts.2)
      | ']' :: more => some ([value], more)
      | _ => none

def parseFields : Nat → List Char → Option (List (String × Json) × List Char)
  | 0, _ => none
  | fuel + 1, s =>
    match skipSpace s with
    | '\x22' :: afterQuote =>
      match parseString afterQuote with
      | none => none
      | some (key, afterKey) =>
        match skipSpace afterKey with
        | ':' :: afterColon =>
          match parseValue fuel afterColon with
          | none => none
          | some (value, rest) =>
            match skipSpace rest with
            | ',' :: more =>
              (parseFields fuel more).map fun parts =>
                ((key, value) :: parts.1, parts.2)
            | '\x7d' :: more => some ([(key, value)], more)
            | _ => none
        | _ => none
    | _ => none

end

def parse (s : List Char) : Option Json :=
  match parseValue (s.length + 1) s with
  | some (value, rest) => if skipSpace rest = [] then some value else none
  | none => none

/-! ## What was printed is read back -/

theorem hexValue_hexDigit : ∀ n < 16, hexValue (hexDigit n) = some n := by
  decide

theorem hexNumber_hexDigits {n : Nat} (hn : n < 65536) :
    hexNumber (hexDigit (n / 4096 % 16)) (hexDigit (n / 256 % 16)) (hexDigit (n / 16 % 16))
      (hexDigit (n % 16)) = some n := by
  have h : ∀ m, hexValue (hexDigit (m % 16)) = some (m % 16) :=
    fun m => hexValue_hexDigit _ (Nat.mod_lt _ (by omega))
  simp only [hexNumber, h, Option.bind_eq_bind, Option.bind_some, Option.pure_def,
    Option.some.injEq]
  omega

def unitOf (c : Char) : Char ⊕ Nat :=
  if shortEscape c = none ∧ coded c = true then .inr c.toNat else .inl c

variable {c : Char}

theorem coded_lt (h : coded c = true) : c.toNat < 55296 := by
  simp only [coded, Bool.or_eq_true, decide_eq_true_eq] at h
  rcases h with ((((h | h) | h) | h) | h) | h
  · omega
  · subst h; decide
  · subst h; decide
  · subst h; decide
  · omega
  · omega

theorem codeChar_toNat (h : c.toNat < 55296) : codeChar c.toNat = c := by
  rw [codeChar, if_neg (by omega), Char.ofNat_toNat]

theorem unescapeLetter_of_mem :
    ∀ pair ∈ shortEscapes, unescapeLetter pair.2 = some pair.1 ∧ pair.2 ≠ 'u' := by
  decide

theorem unescapeLetter_shortEscape (h : shortEscape c = some letter) :
    unescapeLetter letter = some c ∧ letter ≠ 'u' := by
  obtain ⟨pair, hfind, rfl⟩ := Option.map_eq_some_iff.mp h
  have hmem := unescapeLetter_of_mem pair (List.mem_of_find?_eq_some hfind)
  have hkey := List.find?_some hfind
  rw [decide_eq_true_iff] at hkey
  rw [← hkey]
  exact hmem

theorem shortEscape_eq_none (h : shortEscape c = none) : c ≠ '\x22' ∧ c ≠ '\\' := by
  constructor <;> (rintro rfl; exact absurd h (by decide))

theorem parseUnits_escape (hletter : unescapeLetter letter = some c) (hu : letter ≠ 'u')
    (rest : List Char) :
    parseUnits ('\\' :: letter :: rest) =
      (parseUnits rest).map fun parts => (.inl c :: parts.1, parts.2) := by
  rw [parseUnits.eq_def]
  split
  · simp_all
  · simp_all
  · rename_i heq
    simp only [List.cons.injEq] at heq
    obtain ⟨-, rfl, rfl⟩ := heq
    rw [hletter]
  · rename_i hother heq
    simp only [List.cons.injEq] at heq
    exact absurd heq.2.symm (hother letter rest heq.1.symm)

theorem parseUnits_plain (hquote : c ≠ '\x22') (hslash : c ≠ '\\') (hcontrol : 32 ≤ c.toNat)
    (rest : List Char) :
    parseUnits (c :: rest) = (parseUnits rest).map fun parts => (.inl c :: parts.1, parts.2) := by
  rw [parseUnits.eq_def]
  split
  · simp_all
  · simp_all
  · simp_all
  · rename_i heq
    simp only [List.cons.injEq] at heq
    obtain ⟨rfl, rfl⟩ := heq
    have hnot : ¬ (decide (c.toNat < 32) || decide (c = '\\')) = true := by
      simp [hslash, hcontrol]
    rw [if_neg hquote, if_neg hnot]

theorem parseUnits_escapeChar (c : Char) (rest : List Char) :
    parseUnits (escapeChar c ++ rest) =
      (parseUnits rest).map fun parts => (unitOf c :: parts.1, parts.2) := by
  cases hshort : shortEscape c with
  | some letter =>
    obtain ⟨hletter, hu⟩ := unescapeLetter_shortEscape hshort
    simp only [escapeChar, unitOf, hshort, List.cons_append, List.nil_append]
    rw [parseUnits_escape hletter hu]
    simp
  | none =>
    obtain ⟨hquote, hslash⟩ := shortEscape_eq_none hshort
    by_cases hcoded : coded c = true
    · have hhex := hexNumber_hexDigits (n := c.toNat) (by have := coded_lt hcoded; omega)
      simp only [escapeChar, unitOf, hshort, hcoded, hexDigits, if_true, List.cons_append,
        List.nil_append, true_and]
      rw [parseUnits, hhex]
    · have hcontrol : 32 ≤ c.toNat := by
        simp only [coded, Bool.or_eq_true, decide_eq_true_eq, not_or] at hcoded
        omega
      simp only [escapeChar, unitOf, hshort, hcoded, if_false, List.cons_append,
        List.nil_append, and_false, Bool.false_eq_true]
      exact parseUnits_plain hquote hslash hcontrol rest

theorem parseUnits_quoted (s rest : List Char) :
    parseUnits (s.flatMap escapeChar ++ '\x22' :: rest) = some (s.map unitOf, rest) := by
  induction s with
  | nil => rfl
  | cons c more ih =>
    rw [List.flatMap_cons, List.append_assoc, parseUnits_escapeChar, ih]
    rfl

theorem joinUnits_map (s : List Char) : joinUnits none (s.map unitOf) = s := by
  induction s with
  | nil => rfl
  | cons c rest ih =>
    by_cases h : shortEscape c = none ∧ coded c = true
    · have hlt := coded_lt h.2
      have hhigh : isHigh c.toNat = false := by
        simp [isHigh]
        omega
      rw [List.map_cons, unitOf, if_pos h, joinUnits, hhigh, if_neg (by decide),
        codeChar_toNat hlt, ih]
    · rw [List.map_cons, unitOf, if_neg h, joinUnits, ih]

theorem parseString_quoted (s : String) (rest : List Char) :
    parseString (s.toList.flatMap escapeChar ++ '\x22' :: rest) = some (s, rest) := by
  rw [parseString, parseUnits_quoted, Option.map_some, joinUnits_map, String.ofList_toList]

mutual

def wellFormed : Json → Bool
  | num literal => isNumber literal.toList && literal.toList.all isAtomChar
  | arr items => wellFormedItems items
  | obj fields => wellFormedFields fields
  | _ => true

def wellFormedItems : List Json → Bool
  | [] => true
  | item :: rest => wellFormed item && wellFormedItems rest

def wellFormedFields : List (String × Json) → Bool
  | [] => true
  | (_, value) :: rest => wellFormed value && wellFormedFields rest

end

def Stops (rest : List Char) : Prop :=
  ∀ c, rest.head? = some c → isAtomChar c = false

theorem stops_cons (h : isAtomChar c = false) (rest : List Char) : Stops (c :: rest) := by
  rintro _ ⟨rfl⟩
  exact h

theorem isAtomChar_ne (h : isAtomChar c = true) :
    c ≠ '\x22' ∧ c ≠ '[' ∧ c ≠ '\x7b' ∧ c ≠ ']' ∧ isSpace c = false := by
  refine ⟨?_, ?_, ?_, ?_, ?_⟩
  · rintro rfl; exact absurd h (by decide)
  · rintro rfl; exact absurd h (by decide)
  · rintro rfl; exact absurd h (by decide)
  · rintro rfl; exact absurd h (by decide)
  · simp only [isSpace, Bool.or_eq_false_iff, decide_eq_false_iff_not]
    refine ⟨⟨⟨?_, ?_⟩, ?_⟩, ?_⟩ <;> (rintro rfl; exact absurd h (by decide))

theorem skipSpace_cons (h : isSpace c = false) (rest : List Char) :
    skipSpace (c :: rest) = c :: rest := by
  rw [skipSpace, List.dropWhile_cons_of_neg (by simp [h])]

variable {rest : List Char}

theorem parseValue_atom (word : List Char) (hword : word ≠ []) (hchars : word.all isAtomChar = true)
    (hrest : Stops rest) (fuel : Nat) :
    parseValue (fuel + 1) (word ++ rest) = (atom word).map fun value => (value, rest) := by
  rw [List.all_eq_true] at hchars
  cases word with
  | nil => exact absurd rfl hword
  | cons c more =>
    obtain ⟨hquote, hbracket, hbrace, -, hspace⟩ := isAtomChar_ne (hchars c List.mem_cons_self)
    have hstops : rest.takeWhile isAtomChar = [] ∧ rest.dropWhile isAtomChar = rest := by
      cases rest with
      | nil => simp
      | cons d tail => simp [hrest d rfl]
    rw [parseValue, List.cons_append, skipSpace_cons hspace]
    simp only [hquote, hbracket, hbrace, if_false]
    rw [← List.cons_append, List.takeWhile_append_of_pos hchars, hstops.1, List.append_nil,
      List.dropWhile_append_of_pos hchars, hstops.2]

variable {v : Json}

/-- A printed value starts with a character that is neither white space nor a bracket that
closes. -/
theorem render_head (hv : wellFormed v = true) :
    ∃ c more, render v = c :: more ∧ isSpace c = false ∧ c ≠ ']' := by
  cases v with
  | null => exact ⟨'n', _, rfl, by decide, by decide⟩
  | bool b => cases b with
    | true => exact ⟨'t', _, rfl, by decide, by decide⟩
    | false => exact ⟨'f', _, rfl, by decide, by decide⟩
  | num literal =>
    simp only [wellFormed, Bool.and_eq_true, List.all_eq_true] at hv
    cases hliteral : literal.toList with
    | nil =>
      rw [hliteral] at hv
      exact absurd hv.1 (by decide)
    | cons c more =>
      obtain ⟨-, -, -, hclose, hspace⟩ := isAtomChar_ne (hv.2 c (by simp [hliteral]))
      exact ⟨c, more, by rw [render, hliteral], hspace, hclose⟩
  | str s => exact ⟨'\x22', _, rfl, by decide, by decide⟩
  | arr items => exact ⟨'[', _, rfl, by decide, by decide⟩
  | obj fields => exact ⟨'\x7b', _, rfl, by decide, by decide⟩

theorem parseString_cons_quoted (key : String) (rest : List Char) :
    quoted key ++ rest = '\x22' :: (key.toList.flatMap escapeChar ++ '\x22' :: rest) := by
  simp [quoted]

theorem atom_number {word : List Char} (h : isNumber word = true) :
    atom word = some (num (String.ofList word)) := by
  have hne : ∀ other, isNumber other = false → word ≠ other := by
    rintro other hother rfl
    exact absurd h (by simp [hother])
  rw [atom, if_neg (hne _ (by decide)), if_neg (hne _ (by decide)), if_neg (hne _ (by decide)),
    if_pos h]

variable {fuel : Nat} {s : List Char} {value : Json} {items : List Json}

variable {key : String}

theorem parseFields_cons (fuel : Nat) (key : String) (s : List Char) :
    parseFields (fuel + 1) (quoted key ++ ':' :: s) =
      match parseValue fuel s with
      | none => none
      | some (value, rest) =>
        match skipSpace rest with
        | ',' :: more => (parseFields fuel more).map fun parts => ((key, value) :: parts.1, parts.2)
        | '\x7d' :: more => some ([(key, value)], more)
        | _ => none := by
  rw [parseString_cons_quoted, parseFields, skipSpace_cons (by decide)]
  simp only [parseString_quoted, skipSpace_cons (show isSpace ':' = false by decide)]

theorem parseValue_arr (hspace : isSpace c = false) (hclose : c ≠ ']')
    (hitems : parseItems fuel (c :: s) = some (items, rest)) :
    parseValue (fuel + 1) ('[' :: c :: s) = some (arr items, rest) := by
  rw [parseValue, skipSpace_cons (by decide)]
  simp only [show ('[' : Char) ≠ '\x22' by decide, if_false, if_true, skipSpace_cons hspace]
  split
  · simp_all
  · simp [hitems]

theorem parseValue_obj (fuel : Nat) (key : String) (s : List Char) :
    parseValue (fuel + 1) ('\x7b' :: (quoted key ++ s)) =
      (parseFields fuel (quoted key ++ s)).map fun parts => (obj parts.1, parts.2) := by
  rw [parseString_cons_quoted, parseValue, skipSpace_cons (by decide)]
  simp only [show ('\x7b' : Char) ≠ '\x22' by decide, show ('\x7b' : Char) ≠ '[' by decide,
    if_false, if_true, skipSpace_cons (show isSpace '\x22' = false by decide)]
  simp

theorem renderItems_head {item : Json} (hv : wellFormedItems (item :: items) = true) :
    ∃ c more, renderItems (item :: items) = c :: more ∧ isSpace c = false ∧ c ≠ ']' := by
  rw [wellFormedItems, Bool.and_eq_true] at hv
  obtain ⟨c, more, hrender, hspace, hclose⟩ := render_head hv.1
  cases items with
  | nil => exact ⟨c, more, by rw [renderItems, hrender], hspace, hclose⟩
  | cons next items =>
    refine ⟨c, more ++ ',' :: renderItems (next :: items), ?_, hspace, hclose⟩
    rw [renderItems, hrender, List.cons_append]

theorem renderFields_head (field : String × Json) (fields : List (String × Json)) :
    ∃ more, renderFields (field :: fields) = quoted field.1 ++ more := by
  cases fields with
  | nil => exact ⟨_, rfl⟩
  | cons next fields => exact ⟨_, by rw [renderFields, List.append_assoc]⟩

mutual

/-- A printed value is read back, with enough fuel and whatever stops a word after it. -/
theorem parseValue_render (v : Json) (hv : wellFormed v = true) (fuel : Nat) (rest : List Char)
    (hfuel : (render v).length < fuel) (hrest : Stops rest) :
    parseValue fuel (render v ++ rest) = some (v, rest) := by
  obtain ⟨fuel, rfl⟩ := Nat.exists_eq_add_one_of_ne_zero (Nat.ne_zero_of_lt hfuel)
  cases v with
  | null => exact parseValue_atom ['n', 'u', 'l', 'l'] (by decide) (by decide) hrest fuel
  | bool b =>
    cases b with
    | true => exact parseValue_atom ['t', 'r', 'u', 'e'] (by decide) (by decide) hrest fuel
    | false =>
      exact parseValue_atom ['f', 'a', 'l', 's', 'e'] (by decide) (by decide) hrest fuel
  | num literal =>
    simp only [wellFormed, Bool.and_eq_true] at hv
    have hword : literal.toList ≠ [] := by
      intro h
      rw [h] at hv
      exact absurd hv.1 (by decide)
    rw [render, parseValue_atom literal.toList hword hv.2 hrest, atom_number hv.1,
      String.ofList_toList]
    rfl
  | str s =>
    rw [render, parseString_cons_quoted, parseValue, skipSpace_cons (by decide)]
    simp only [if_true, parseString_quoted, Option.map_some]
  | arr items =>
    cases items with
    | nil =>
      change parseValue (fuel + 1) ('[' :: ']' :: rest) = _
      rw [parseValue, skipSpace_cons (by decide)]
      simp [skipSpace_cons (show isSpace ']' = false by decide)]
    | cons item items =>
      rw [wellFormed] at hv
      simp only [render, List.length_append, List.length_cons, List.length_nil] at hfuel
      have hitems := parseItems_render item items hv fuel rest (by omega)
      obtain ⟨c, more, hhead, hspace, hclose⟩ := renderItems_head hv
      rw [hhead, List.cons_append] at hitems
      rw [render, List.append_assoc, List.cons_append, hhead]
      exact parseValue_arr hspace hclose hitems
  | obj fields =>
    cases fields with
    | nil =>
      change parseValue (fuel + 1) ('\x7b' :: '\x7d' :: rest) = _
      rw [parseValue, skipSpace_cons (by decide)]
      simp [skipSpace_cons (show isSpace '\x7d' = false by decide)]
    | cons field fields =>
      rw [wellFormed] at hv
      simp only [render, List.length_append, List.length_cons, List.length_nil] at hfuel
      have hfields := parseFields_render field fields hv fuel rest (by omega)
      obtain ⟨more, hhead⟩ := renderFields_head field fields
      rw [hhead, List.append_assoc] at hfields
      rw [render, List.append_assoc, List.cons_append, hhead, List.append_assoc]
      exact (parseValue_obj ..).trans (congrArg (Option.map _) hfields)
termination_by fuel

theorem parseItems_render (item : Json) (items : List Json)
    (hv : wellFormedItems (item :: items) = true) (fuel : Nat) (rest : List Char)
    (hfuel : (renderItems (item :: items)).length + 1 < fuel) :
    parseItems fuel (renderItems (item :: items) ++ ']' :: rest) = some (item :: items, rest) := by
  obtain ⟨fuel, rfl⟩ := Nat.exists_eq_add_one_of_ne_zero (Nat.ne_zero_of_lt hfuel)
  simp only [wellFormedItems, Bool.and_eq_true] at hv
  cases items with
  | nil =>
    simp only [renderItems] at hfuel ⊢
    rw [parseItems, parseValue_render item hv.1 fuel _ (by omega) (stops_cons (by decide) rest)]
    simp only [skipSpace_cons (show isSpace ']' = false by decide)]
  | cons next items =>
    rw [renderItems] at hfuel ⊢
    simp only [List.length_append, List.length_cons] at hfuel
    have hitems := parseItems_render next items (by simpa [wellFormedItems] using hv.2) fuel rest
      (by omega)
    rw [List.append_assoc, List.cons_append, parseItems,
      parseValue_render item hv.1 fuel _ (by omega) (stops_cons (by decide) _)]
    simp only [skipSpace_cons (show isSpace ',' = false by decide), hitems, Option.map_some]
termination_by fuel

theorem parseFields_render (field : String × Json) (fields : List (String × Json))
    (hv : wellFormedFields (field :: fields) = true) (fuel : Nat) (rest : List Char)
    (hfuel : (renderFields (field :: fields)).length + 1 < fuel) :
    parseFields fuel (renderFields (field :: fields) ++ '\x7d' :: rest) =
      some (field :: fields, rest) := by
  obtain ⟨fuel, rfl⟩ := Nat.exists_eq_add_one_of_ne_zero (Nat.ne_zero_of_lt hfuel)
  obtain ⟨key, value⟩ := field
  simp only [wellFormedFields, Bool.and_eq_true] at hv
  cases fields with
  | nil =>
    simp only [renderFields, List.length_append, List.length_cons] at hfuel ⊢
    rw [List.append_assoc, List.cons_append, parseFields_cons,
      parseValue_render value hv.1 fuel _ (by omega) (stops_cons (by decide) rest)]
    simp only [skipSpace_cons (show isSpace '\x7d' = false by decide)]
  | cons next fields =>
    rw [renderFields] at hfuel ⊢
    simp only [List.length_append, List.length_cons] at hfuel
    have hfields := parseFields_render next fields
      (by simpa [wellFormedFields] using hv.2) fuel rest
      (by omega)
    rw [List.append_assoc, List.append_assoc, List.cons_append, List.cons_append, parseFields_cons,
      parseValue_render value hv.1 fuel _ (by omega) (stops_cons (by decide) _)]
    simp only [skipSpace_cons (show isSpace ',' = false by decide), hfields, Option.map_some]
termination_by fuel

end

theorem parse_render (hv : wellFormed v = true) : parse (render v) = some v := by
  have h := parseValue_render v hv ((render v).length + 1) [] (by omega) (by nofun)
  rw [List.append_nil] at h
  rw [parse, h]
  rfl

/-! ## Documents -/

/-- `json.Marshal` of a value. -/
def marshal (v : Json) : List UInt8 :=
  Text.encode (render v)

/-- `json.Unmarshal`, up to the type it is asked for. -/
def unmarshal (bytes : List UInt8) : Option Json :=
  parse (Text.decode bytes)

theorem unmarshal_marshal (hv : wellFormed v = true) : unmarshal (marshal v) = some v := by
  rw [unmarshal, marshal, Text.decode_encode, parse_render hv]

end Json

end FondacoFormal.Library
