import Mathlib.Data.List.Basic
import Mathlib.Tactic.Ring
import Mathlib.Data.Nat.Digits

/-!
# What `statOutput`'s codec calls in Go's `encoding/json`, `strconv` and `fmt`

The library is not under `src/`; it is modelled from its documented behaviour on text, with a
string as its characters (UTF-8 encodes and decodes them unchanged).

* `strconv`: `FormatUint` and `FormatInt` in base 10, `fmt`'s `%0Wo`, and `ParseUint` and
  `ParseInt`, which callers here read only as success or failure.
* The encoder's `appendString` with HTML escaping, as `json.Marshal` writes strings.
* The decoder: the scanner's grammar (whitespace, literals, numbers, strings with their escapes
  and its nesting limit) read into a tree of values, with `unquote`'s rule that a surrogate escape
  outside a valid pair stands for U+FFFD.

`ParseUint` reads back what `FormatUint` and `%0Wo` write, `ParseInt` what `FormatInt` writes,
and the decoder's string reader what `appendString` writes.
-/

namespace BockIpfs.GoJson

/-! ### `strconv` -/

/-- The value of a digit in any base up to 36, as `ParseUint` reads it: a decimal digit, or a
letter of either case from 10 up. -/
def digitValue (c : Char) : Option Nat :=
  if '0' ≤ c ∧ c ≤ '9' then some (c.toNat - 48)
  else if 'a' ≤ c ∧ c ≤ 'z' then some (c.toNat - 87)
  else if 'A' ≤ c ∧ c ≤ 'Z' then some (c.toNat - 55)
  else none

/-- One pass of `ParseUint`'s loop: the value times the base plus the digit, while the character
is a digit of the base and the value stays at most `1 << bitSize - 1`. -/
def uintStep (base bitSize : Nat) (acc : Option Nat) (c : Char) : Option Nat :=
  acc.bind fun n => (digitValue c).bind fun d =>
    if d < base ∧ n * base + d < 2 ^ bitSize then some (n * base + d) else none

/-- `strconv.ParseUint(s, base, bitSize)` for a base from 2 to 36: the value, or `none` where it
returns an error (empty text, a character that is not a digit of the base, or a value out of
range). -/
def parseUint (s : String) (base bitSize : Nat) : Option Nat :=
  if s = "" then none else s.toList.foldl (uintStep base bitSize) (some 0)

/-- `strconv.ParseInt(s, base, bitSize)`: an optional sign, then `ParseUint` of the rest, within
`-(1 << (bitSize - 1))` and `1 << (bitSize - 1) - 1`. -/
def parseInt (s : String) (base bitSize : Nat) : Option Int :=
  match s.toList with
  | '+' :: digits =>
    (parseUint (String.mk digits) base bitSize).bind fun n =>
      if n < 2 ^ (bitSize - 1) then some n else none
  | '-' :: digits =>
    (parseUint (String.mk digits) base bitSize).bind fun n =>
      if n ≤ 2 ^ (bitSize - 1) then some (-n) else none
  | _ =>
    (parseUint s base bitSize).bind fun n => if n < 2 ^ (bitSize - 1) then some n else none

/-- `strconv.FormatUint(n, 10)`, as `json.Marshal` writes an unsigned integer. -/
def formatUint (n : Nat) : String :=
  String.mk (Nat.toDigits 10 n)

/-- `strconv.FormatInt(i, 10)`, as `json.Marshal` writes a signed integer. -/
def formatInt (i : Int) : String :=
  if i < 0 then "-" ++ formatUint i.natAbs else formatUint i.natAbs

/-- `strconv.FormatBool(b)`, as `json.Marshal` writes a boolean. -/
def formatBool (b : Bool) : String :=
  if b then "true" else "false"

/-- `fmt.Sprintf("%0Wo", n)`: the octal digits of `n`, padded with zeros to `width`. -/
def formatOctal (width n : Nat) : String :=
  String.mk (List.replicate (width - (Nat.toDigits 8 n).length) '0' ++ Nat.toDigits 8 n)

/-! ### The encoder's strings -/

/-- One character as `appendString` writes it with HTML escaping: a backslash escape for `\`,
`"` and the five control characters that have one, a `\u00XX` escape for the other control
characters and for `<`, `>` and `&`, a `\u202X` escape for U+2028 and U+2029, and the
character itself otherwise. -/
def escapeRune (c : Char) : List Char :=
  if c = '\\' ∨ c = '"' then ['\\', c]
  else if c = '\x08' then ['\\', 'b']
  else if c = '\x0c' then ['\\', 'f']
  else if c = '\n' then ['\\', 'n']
  else if c = '\r' then ['\\', 'r']
  else if c = '\t' then ['\\', 't']
  else if c.toNat < 0x20 ∨ c = '<' ∨ c = '>' ∨ c = '&' then
    ['\\', 'u', '0', '0', Nat.digitChar (c.toNat / 16), Nat.digitChar (c.toNat % 16)]
  else if c.toNat = 0x2028 ∨ c.toNat = 0x2029 then
    ['\\', 'u', '2', '0', '2', Nat.digitChar (c.toNat % 16)]
  else [c]

/-- `appendString(dst, s, true)`: the quoted and escaped string. -/
def appendString (s : String) : List Char :=
  '"' :: s.toList.flatMap escapeRune ++ ['"']

/-! ### The decoder -/

/-- A JSON value as the decoder reads it. A number keeps its text, which the field it is stored
in parses. -/
inductive Value where
  | null
  | bool (b : Bool)
  | number (literal : String)
  | string (s : String)
  | array (items : List Value)
  | object (members : List (String × Value))
  deriving Repr

/-- The word an `UnmarshalTypeError` uses for a value. -/
def Value.description : Value → String
  | .null => "null"
  | .bool _ => "bool"
  | .number _ => "number"
  | .string _ => "string"
  | .array _ => "array"
  | .object _ => "object"

/-- The scanner's `isSpace`: space, tab, carriage return and line feed. -/
def isSpace (c : Char) : Bool :=
  c == ' ' || c == '\t' || c == '\r' || c == '\n'

/-- The input after its leading whitespace. -/
def skipSpace : List Char → List Char
  | [] => []
  | c :: rest => if isSpace c then skipSpace rest else c :: rest

/-- A hexadecimal digit of either case, as `getu4` reads it. -/
def hexValue (c : Char) : Option Nat :=
  if '0' ≤ c ∧ c ≤ '9' then some (c.toNat - 48)
  else if 'a' ≤ c ∧ c ≤ 'f' then some (c.toNat - 87)
  else if 'A' ≤ c ∧ c ≤ 'F' then some (c.toNat - 55)
  else none

/-- The UTF-16 code unit of a `\u` escape's four digits. -/
def hexCodeUnit (d1 d2 d3 d4 : Char) : Option Nat :=
  match hexValue d1, hexValue d2, hexValue d3, hexValue d4 with
  | some v1, some v2, some v3, some v4 => some (((v1 * 16 + v2) * 16 + v3) * 16 + v4)
  | _, _, _, _ => none

/-- The character a one-letter escape stands for; the scanner allows only these. -/
def escapedChar : Char → Option Char
  | '"' => some '"'
  | '\\' => some '\\'
  | '/' => some '/'
  | 'b' => some '\x08'
  | 'f' => some '\x0c'
  | 'n' => some '\n'
  | 'r' => some '\r'
  | 't' => some '\t'
  | _ => none

/-- `utf16.DecodeRune` of a high and a low surrogate. -/
def surrogatePair (high low : Nat) : Char :=
  Char.ofNat (0x10000 + (high - 0xD800) * 0x400 + (low - 0xDC00))

/-- One more character in front of the rest of a string literal. -/
def consChar (c : Char) (body : Option (List Char × List Char)) :
    Option (List Char × List Char) :=
  body.map fun (chars, rest) => (c :: chars, rest)

/-- After the escape of a high surrogate: the character it makes with the low surrogate whose
`\u` escape starts the input, if the two are a pair. That escape is six characters long. -/
def lowSurrogate (high : Nat) : List Char → Option Char
  | b :: u :: e1 :: e2 :: e3 :: e4 :: _ =>
    if b = '\\' ∧ u = 'u' then
      (hexCodeUnit e1 e2 e3 e4).bind fun low =>
        if high < 0xDC00 ∧ 0xDC00 ≤ low ∧ low < 0xE000 then some (surrogatePair high low) else none
    else none
  | _ => none

mutual
/-- The characters of a string literal up to its closing quote, and the input after it. A
control character must be escaped. -/
def parseStringBody : List Char → Option (List Char × List Char)
  | [] => none
  | c :: rest =>
    if c = '"' then some ([], rest)
    else if c = '\\' then parseEscape rest
    else if c.toNat < 0x20 then none
    else consChar c (parseStringBody rest)
termination_by input => input.length
decreasing_by all_goals simp_wf
/-- The rest of a string literal after a backslash. -/
def parseEscape : List Char → Option (List Char × List Char)
  | [] => none
  | e :: rest =>
    if e = 'u' then parseUnicodeEscape rest
    else (escapedChar e).bind fun c => consChar c (parseStringBody rest)
termination_by input => input.length
decreasing_by all_goals simp_wf
/-- The rest of a string literal after a backslash and a `u`. A surrogate takes the next `\u`
escape with it when the two are a high and a low surrogate; otherwise it is U+FFFD and the next
escape is read on its own. -/
def parseUnicodeEscape : List Char → Option (List Char × List Char)
  | d1 :: d2 :: d3 :: d4 :: rest =>
    (hexCodeUnit d1 d2 d3 d4).bind fun unit =>
      if unit < 0xD800 ∨ 0xE000 ≤ unit then consChar (Char.ofNat unit) (parseStringBody rest)
      else
        match lowSurrogate unit rest with
        | some c => consChar c (parseStringBody (rest.drop 6))
        | none => consChar '�' (parseStringBody rest)
  | _ => none
termination_by input => input.length
decreasing_by all_goals (simp_wf; omega)
end

/-- The integer part of a number: `0`, or a digit from 1 to 9 and the digits after it. -/
def scanInt : List Char → Option (List Char × List Char)
  | [] => none
  | c :: rest =>
    if c = '0' then some (['0'], rest)
    else if c.isDigit then some (c :: rest.takeWhile Char.isDigit, rest.dropWhile Char.isDigit)
    else none

/-- An optional fraction: a point and at least one digit. -/
def scanFraction : List Char → Option (List Char × List Char)
  | '.' :: rest =>
    if rest.takeWhile Char.isDigit = [] then none
    else some ('.' :: rest.takeWhile Char.isDigit, rest.dropWhile Char.isDigit)
  | rest => some ([], rest)

/-- An optional exponent: `e` or `E`, an optional sign, and at least one digit. -/
def scanExponent : List Char → Option (List Char × List Char)
  | [] => some ([], [])
  | e :: rest =>
    if e = 'e' ∨ e = 'E' then
      let (sign, digits) := match rest with
        | '+' :: digits => (['+'], digits)
        | '-' :: digits => (['-'], digits)
        | digits => ([], digits)
      if digits.takeWhile Char.isDigit = [] then none
      else some (e :: sign ++ digits.takeWhile Char.isDigit, digits.dropWhile Char.isDigit)
    else some ([], e :: rest)

/-- An optional minus sign, and the input after it. -/
def scanSign : List Char → List Char × List Char
  | '-' :: rest => (['-'], rest)
  | rest => ([], rest)

/-- A number as the scanner reads it: an optional minus, the integer part, then an optional
fraction and exponent. The text of the number, and the input after it. -/
def scanNumber (input : List Char) : Option (List Char × List Char) :=
  (scanInt (scanSign input).2).bind fun (intPart, rest) =>
    (scanFraction rest).bind fun (frac, rest) =>
      (scanExponent rest).map fun (exp, rest) => ((scanSign input).1 ++ intPart ++ frac ++ exp, rest)

/-- The rest of `true`, `false` or `null` after its first letter: the value, and the input
after the word. -/
def keyword (value : Value) (word input : List Char) : Option (Value × List Char) :=
  if word <+: input then some (value, input.drop word.length) else none

/-- The scanner's `maxNestingDepth`. -/
def maxNestingDepth : Nat := 10000

mutual
/-- A value after leading whitespace, and the input after it. `depth` is the number of arrays
and objects open around it; `fuel` bounds the number of steps. -/
def parseValue : Nat → Nat → List Char → Option (Value × List Char)
  | 0, _, _ => none
  | fuel + 1, depth, input =>
    match skipSpace input with
    | [] => none
    | c :: rest =>
      if c = '-' ∨ c.isDigit then
        (scanNumber (c :: rest)).map fun (lit, rest) => (.number (String.mk lit), rest)
      else
        match c, rest with
        | '{', rest =>
          if depth < maxNestingDepth then
            match skipSpace rest with
            | '}' :: rest => some (.object [], rest)
            | _ =>
              (parseMember fuel (depth + 1) rest).bind fun (member, rest) =>
                parseMembers fuel (depth + 1) rest [member]
          else none
        | '[', rest =>
          if depth < maxNestingDepth then
            match skipSpace rest with
            | ']' :: rest => some (.array [], rest)
            | _ =>
              (parseValue fuel (depth + 1) rest).bind fun (item, rest) =>
                parseItems fuel (depth + 1) rest [item]
          else none
        | '"', rest => (parseStringBody rest).map fun (chars, rest) => (.string (String.mk chars), rest)
        | 't', rest => keyword (.bool true) ['r', 'u', 'e'] rest
        | 'f', rest => keyword (.bool false) ['a', 'l', 's', 'e'] rest
        | 'n', rest => keyword .null ['u', 'l', 'l'] rest
        | _, _ => none
termination_by structural fuel => fuel
/-- A member of an object: its key, a colon, and its value. -/
def parseMember : Nat → Nat → List Char → Option ((String × Value) × List Char)
  | 0, _, _ => none
  | fuel + 1, depth, input =>
    match skipSpace input with
    | '"' :: rest =>
      (parseStringBody rest).bind fun (key, rest) =>
        match skipSpace rest with
        | ':' :: rest => (parseValue fuel depth rest).map fun (value, rest) => ((String.mk key, value), rest)
        | _ => none
    | _ => none
termination_by structural fuel => fuel
/-- The rest of an object after a member: a comma and the next member, or the closing brace. -/
def parseMembers : Nat → Nat → List Char → List (String × Value) → Option (Value × List Char)
  | 0, _, _, _ => none
  | fuel + 1, depth, input, members =>
    match skipSpace input with
    | '}' :: rest => some (.object members, rest)
    | ',' :: rest =>
      (parseMember fuel depth rest).bind fun (member, rest) =>
        parseMembers fuel depth rest (members ++ [member])
    | _ => none
termination_by structural fuel => fuel
/-- The rest of an array after an item: a comma and the next item, or the closing bracket. -/
def parseItems : Nat → Nat → List Char → List Value → Option (Value × List Char)
  | 0, _, _, _ => none
  | fuel + 1, depth, input, items =>
    match skipSpace input with
    | ']' :: rest => some (.array items, rest)
    | ',' :: rest =>
      (parseValue fuel depth rest).bind fun (item, rest) => parseItems fuel depth rest (items ++ [item])
    | _ => none
termination_by structural fuel => fuel
end

/-- `checkValid` and the decoder's reading of the input: one value with only whitespace around
it, or `none` for a `SyntaxError`. Every step reads a character, so the text's length bounds the
fuel it needs. -/
def parse (data : String) : Option Value :=
  match parseValue (data.length + 1) 0 data.toList with
  | some (value, rest) => if skipSpace rest = [] then some value else none
  | none => none

/-! ### Reading back numbers -/

theorem toDigitsCore_append (b : Nat) : ∀ (fuel n : Nat) (acc : List Char),
    Nat.toDigitsCore b fuel n acc = Nat.toDigitsCore b fuel n [] ++ acc
  | 0, _, _ => rfl
  | fuel + 1, n, acc => by
    simp only [Nat.toDigitsCore]
    split_ifs
    · rfl
    · rw [toDigitsCore_append b fuel _ (_ :: acc), toDigitsCore_append b fuel _ [_]]
      simp

/-- Enough fuel gives the same digits. -/
theorem toDigitsCore_fuel {b : Nat} (hb : 2 ≤ b) : ∀ (f g n : Nat) (acc : List Char),
    n < f → n < g → Nat.toDigitsCore b f n acc = Nat.toDigitsCore b g n acc
  | f + 1, g + 1, n, acc, hf, hg => by
    simp only [Nat.toDigitsCore]
    split_ifs with h0
    · rfl
    · have : n / b < n := Nat.div_lt_self (Nat.pos_of_ne_zero fun h => h0 (by simp [h])) hb
      exact toDigitsCore_fuel hb f g _ _ (lt_of_lt_of_le this (Nat.lt_succ_iff.1 hf))
        (lt_of_lt_of_le this (Nat.lt_succ_iff.1 hg))

/-- `toDigits` writes the digits of `n / b`, if that is not zero, then the last digit. -/
theorem toDigits_eq {b : Nat} (hb : 2 ≤ b) (n : Nat) :
    Nat.toDigits b n =
      (if n / b = 0 then [] else Nat.toDigits b (n / b)) ++ [Nat.digitChar (n % b)] := by
  rw [show Nat.toDigits b n = Nat.toDigitsCore b (n + 1) n [] from rfl, Nat.toDigitsCore]
  split_ifs with h0
  · rfl
  · have : n / b < n := Nat.div_lt_self (Nat.pos_of_ne_zero fun h => h0 (by simp [h])) hb
    rw [toDigitsCore_append, toDigitsCore_fuel hb n (n / b + 1) _ _ this (by omega)]
    rfl

theorem toDigits_ne_nil {b : Nat} (hb : 2 ≤ b) (n : Nat) : Nat.toDigits b n ≠ [] := by
  rw [toDigits_eq hb]
  simp

theorem digitValue_digitChar : ∀ d < 10, digitValue (Nat.digitChar d) = some d := by decide

theorem isDigit_digitChar : ∀ d < 10, (Nat.digitChar d).isDigit := by decide

theorem mem_toDigits_isDigit {c : Char} {n : Nat} (h : c ∈ Nat.toDigits 10 n) : c.isDigit := by
  induction n using Nat.strong_induction_on with
  | _ n ih =>
    rw [toDigits_eq (by omega)] at h
    rcases List.mem_append.1 h with h | h
    · split_ifs at h with h0
      · cases h
      · exact ih _ (Nat.div_lt_self (Nat.pos_of_ne_zero fun hn => by simp [hn] at h0) (by omega)) h
    · rw [List.mem_singleton.1 h]
      exact isDigit_digitChar _ (Nat.mod_lt _ (by omega))

theorem digitChar_eq_zero : ∀ d < 10, Nat.digitChar d = '0' → d = 0 := by decide

/-- `toDigits` writes a leading zero only for zero. -/
theorem toDigits_eq_zero_cons {n : Nat} {cs : List Char} (h : Nat.toDigits 10 n = '0' :: cs) :
    n = 0 := by
  induction n using Nat.strong_induction_on generalizing cs with
  | _ n ih =>
    rw [toDigits_eq (by omega)] at h
    split_ifs at h with h0
    · have := digitChar_eq_zero _ (Nat.mod_lt n (by decide)) (List.cons.inj h).1
      omega
    · obtain ⟨c, cs', hcs⟩ := List.exists_cons_of_ne_nil (@toDigits_ne_nil 10 (by decide) (n / 10))
      rw [hcs, List.cons_append] at h
      rw [(List.cons.inj h).1] at hcs
      have hlt : n / 10 < n := by omega
      exact absurd (ih (n / 10) hlt hcs) h0

/-- The digits of a value within `2^bitSize` read back as the value, in a base from 2 to 10. -/
theorem foldl_uintStep_toDigits {b bitSize : Nat} (hb : 2 ≤ b) (hb10 : b ≤ 10) (n : Nat)
    (hn : n < 2 ^ bitSize) : (Nat.toDigits b n).foldl (uintStep b bitSize) (some 0) = some n := by
  induction n using Nat.strong_induction_on with
  | _ n ih =>
    have hmod : n % b < b := Nat.mod_lt _ (by omega)
    have hdigit := digitValue_digitChar (n % b) (by omega)
    rw [toDigits_eq hb, List.foldl_append]
    split_ifs with h0
    · have : n % b = n := Nat.mod_eq_of_lt (by rw [Nat.div_eq_zero_iff (by omega)] at h0; exact h0)
      rw [this] at hdigit hmod ⊢
      simp [uintStep, hdigit, hmod, hn]
    · have hq : n / b < n := Nat.div_lt_self (Nat.pos_of_ne_zero fun h => h0 (by simp [h])) hb
      rw [ih _ hq (lt_of_le_of_lt (Nat.div_le_self n b) hn)]
      simp [uintStep, hdigit, hmod, Nat.div_add_mod', hn]

theorem foldl_uintStep_zeros {b bitSize : Nat} (hb : 0 < b) (k : Nat) :
    (List.replicate k '0').foldl (uintStep b bitSize) (some 0) = some 0 := by
  induction k with
  | zero => rfl
  | succ k ih =>
    rw [List.replicate_succ, List.foldl_cons]
    simpa [uintStep, digitValue, hb, Nat.pos_pow_of_pos] using ih

theorem string_mk_ne_empty {l : List Char} (h : l ≠ []) : String.mk l ≠ "" :=
  fun he => h (congrArg String.data he)

/-- `ParseUint(FormatUint(n), 10, 64)` is `n`. -/
theorem parseUint_formatUint {n : Nat} (hn : n < 2 ^ 64) : parseUint (formatUint n) 10 64 = some n := by
  rw [parseUint, formatUint, if_neg (string_mk_ne_empty (toDigits_ne_nil (by omega) n))]
  exact foldl_uintStep_toDigits (by omega) (by omega) n hn

/-- `ParseUint` in base 8 reads back `%0Wo`. -/
theorem parseUint_formatOctal (width : Nat) {n : Nat} (hn : n < 2 ^ 32) :
    parseUint (formatOctal width n) 8 32 = some n := by
  rw [parseUint, formatOctal, if_neg (string_mk_ne_empty (by simp [toDigits_ne_nil])),
    String.toList, List.foldl_append, foldl_uintStep_zeros (by omega)]
  exact foldl_uintStep_toDigits (by omega) (by omega) n hn

theorem toDigits_head_isDigit (n : Nat) :
    ∃ c cs, Nat.toDigits 10 n = c :: cs ∧ c.isDigit := by
  obtain ⟨c, cs, h⟩ := List.exists_cons_of_ne_nil (@toDigits_ne_nil 10 (by omega) n)
  exact ⟨c, cs, h, mem_toDigits_isDigit (by rw [h]; exact List.mem_cons_self _ _)⟩

/-- `ParseInt(FormatInt(i), 10, 64)` is `i` for every 64-bit `i`. -/
theorem parseInt_formatInt {i : Int} (hlo : -2 ^ 63 ≤ i) (hhi : i < 2 ^ 63) :
    parseInt (formatInt i) 10 64 = some i := by
  have habs : i.natAbs < 2 ^ 64 := by omega
  unfold formatInt
  split_ifs with hneg
  · have hs : ("-" ++ formatUint i.natAbs).toList = '-' :: (formatUint i.natAbs).toList := rfl
    rw [parseInt, hs]
    simp only
    rw [show String.mk (formatUint i.natAbs).toList = formatUint i.natAbs from rfl,
      parseUint_formatUint habs, Option.some_bind, if_pos (by omega)]
    congr 1
    omega
  · obtain ⟨c, cs, hcs, hc⟩ := toDigits_head_isDigit i.natAbs
    have hplus : c ≠ '+' := fun h => by rw [h] at hc; cases hc
    have hminus : c ≠ '-' := fun h => by rw [h] at hc; cases hc
    have htl : (formatUint i.natAbs).toList = c :: cs := hcs
    rw [parseInt, htl]
    split
    · cases hplus (List.cons.inj ‹_›).1
    · cases hminus (List.cons.inj ‹_›).1
    · rw [parseUint_formatUint habs, Option.some_bind, if_pos (by omega)]
      congr 1
      omega

/-! ### Reading back strings -/

theorem hexValue_digitChar : ∀ d < 16, hexValue (Nat.digitChar d) = some d := by decide

theorem hexValue_zero : hexValue '0' = some 0 := rfl

theorem hexValue_two : hexValue '2' = some 2 := rfl

theorem skipSpace_of_not_space {c : Char} (h : isSpace c = false) (rest : List Char) :
    skipSpace (c :: rest) = c :: rest := by
  simp [skipSpace, h]

/-- A backslash escape other than `\u`: the character its letter stands for. -/
theorem parseStringBody_backslash {e : Char} (he : e ≠ 'u') (more : List Char) :
    parseStringBody ('\\' :: e :: more) =
      (escapedChar e).bind fun c => consChar c (parseStringBody more) := by
  rw [parseStringBody, if_neg (by decide), if_pos rfl, parseEscape, if_neg he]

/-- A `\u` escape of a code unit below the surrogates: the character of that code. -/
theorem parseStringBody_unicode {d1 d2 d3 d4 : Char} {unit : Nat}
    (h : hexCodeUnit d1 d2 d3 d4 = some unit) (hunit : unit < 0xD800) (more : List Char) :
    parseStringBody ('\\' :: 'u' :: d1 :: d2 :: d3 :: d4 :: more) =
      consChar (Char.ofNat unit) (parseStringBody more) := by
  rw [parseStringBody, if_neg (by decide), if_pos rfl, parseEscape, if_pos rfl, parseUnicodeEscape,
    h, Option.some_bind, if_pos (.inl hunit)]

/-- Every character as `appendString` writes it reads back as itself. -/
theorem parseStringBody_escapeRune (c : Char) (more : List Char) :
    parseStringBody (escapeRune c ++ more) = consChar c (parseStringBody more) := by
  by_cases hshort : c = '\\' ∨ c = '"' ∨ c = '\x08' ∨ c = '\x0c' ∨ c = '\n' ∨ c = '\r' ∨ c = '\t'
  · rcases hshort with rfl | rfl | rfl | rfl | rfl | rfl | rfl <;>
      exact parseStringBody_backslash (by decide) more
  simp only [not_or] at hshort
  obtain ⟨h1, h2, h3, h4, h5, h6, h7⟩ := hshort
  rw [escapeRune, if_neg (not_or.2 ⟨h1, h2⟩), if_neg h3, if_neg h4, if_neg h5, if_neg h6, if_neg h7]
  split_ifs with hu hl <;> simp only [List.cons_append, List.nil_append]
  · -- a `\u00XX` escape
    have hlt : c.toNat < 256 := by
      rcases hu with h | rfl | rfl | rfl <;> first | omega | decide
    have hunit : hexCodeUnit '0' '0' (Nat.digitChar (c.toNat / 16)) (Nat.digitChar (c.toNat % 16)) =
        some c.toNat := by
      simp only [hexCodeUnit, hexValue_digitChar _ (by omega : c.toNat / 16 < 16),
        hexValue_digitChar _ (Nat.mod_lt _ (by omega) : c.toNat % 16 < 16), hexValue_zero]
      congr 1
      omega
    rw [parseStringBody_unicode hunit (by omega), Char.ofNat_toNat]
  · -- a `\u202X` escape
    have hunit : hexCodeUnit '2' '0' '2' (Nat.digitChar (c.toNat % 16)) = some c.toNat := by
      simp only [hexCodeUnit, hexValue_digitChar _ (Nat.mod_lt _ (by omega) : c.toNat % 16 < 16),
        hexValue_zero, hexValue_two]
      congr 1
      omega
    rw [parseStringBody_unicode hunit (by omega), Char.ofNat_toNat]
  · -- a character written as itself
    rw [parseStringBody, if_neg h2, if_neg h1, if_neg (fun h => hu (.inl h))]

theorem parseStringBody_flatMap_escapeRune (rest : List Char) : ∀ l : List Char,
    parseStringBody (l.flatMap escapeRune ++ '"' :: rest) = some (l, rest)
  | [] => by simp [parseStringBody]
  | c :: l => by
    rw [List.flatMap_cons, List.append_assoc, parseStringBody_escapeRune,
      parseStringBody_flatMap_escapeRune rest l]
    rfl

theorem appendString_append (s : String) (rest : List Char) :
    appendString s ++ rest = '"' :: (s.toList.flatMap escapeRune ++ '"' :: rest) := by
  simp [appendString]

/-! ### Reading back values -/

theorem isSpace_of_isDigit {c : Char} (h : c.isDigit) : isSpace c = false := by
  revert h
  unfold Char.isDigit isSpace
  intro h
  simp only [Bool.and_eq_true, decide_eq_true_eq] at h
  have : c ≠ ' ' ∧ c ≠ '\t' ∧ c ≠ '\r' ∧ c ≠ '\n' := by
    refine ⟨?_, ?_, ?_, ?_⟩ <;> rintro rfl <;> simp_all
  simp [this]

/-- `appendString`'s text reads back as its string. -/
theorem parseValue_appendString (fuel depth : Nat) (s : String) (rest : List Char) :
    parseValue (fuel + 1) depth (appendString s ++ rest) = some (.string s, rest) := by
  rw [appendString_append, parseValue, @skipSpace_of_not_space '"' rfl]
  simp [parseStringBody_flatMap_escapeRune]

theorem scanInt_toDigits (n : Nat) {d : Char} (hd : d.isDigit = false) (rest : List Char) :
    scanInt (Nat.toDigits 10 n ++ d :: rest) = some (Nat.toDigits 10 n, d :: rest) := by
  obtain ⟨c, cs, hcs, hc⟩ := toDigits_head_isDigit n
  rw [hcs]
  by_cases h0 : c = '0'
  · subst h0
    obtain rfl := toDigits_eq_zero_cons hcs
    obtain rfl : cs = [] := (List.cons.inj hcs).2.symm
    simp [scanInt]
  · have hall : ∀ x ∈ cs, x.isDigit := fun x hx =>
      mem_toDigits_isDigit (by rw [hcs]; exact List.mem_cons_of_mem _ hx)
    simp [scanInt, h0, hc, List.takeWhile_append_of_pos hall, List.dropWhile_append_of_pos hall, hd]

/-- What may follow a value inside an object: a comma or the closing brace. -/
theorem delimiter_not_number {d : Char} (hd : d = ',' ∨ d = '}') :
    d.isDigit = false ∧ d ≠ '.' ∧ d ≠ 'e' ∧ d ≠ 'E' ∧ isSpace d = false := by
  rcases hd with rfl | rfl <;> decide

theorem scanSign_of_ne {c : Char} (h : c ≠ '-') (rest : List Char) :
    scanSign (c :: rest) = ([], c :: rest) := by
  unfold scanSign
  split
  · simp_all
  · rfl

theorem scanNumber_digits (n : Nat) (sign : List Char) (hsign : sign = [] ∨ sign = ['-'])
    {d : Char} (hd : d = ',' ∨ d = '}') (rest : List Char) :
    scanNumber (sign ++ Nat.toDigits 10 n ++ d :: rest) =
      some (sign ++ Nat.toDigits 10 n, d :: rest) := by
  obtain ⟨hdig, hdot, he, hE, -⟩ := delimiter_not_number hd
  have hfrac : scanFraction (d :: rest) = some ([], d :: rest) := by
    unfold scanFraction; split <;> simp_all
  have hexp : scanExponent (d :: rest) = some ([], d :: rest) := by
    simp [scanExponent, he, hE]
  have hsign' : scanSign (sign ++ Nat.toDigits 10 n ++ d :: rest) =
      (sign, Nat.toDigits 10 n ++ d :: rest) := by
    rcases hsign with rfl | rfl
    · obtain ⟨c, cs, hcs, hc⟩ := toDigits_head_isDigit n
      rw [List.nil_append, hcs, List.cons_append, scanSign_of_ne (fun h => by rw [h] at hc; cases hc)]
    · rfl
  rw [scanNumber, hsign']
  simp [scanInt_toDigits n hdig, hfrac, hexp]

theorem formatInt_toList (i : Int) :
    (formatInt i).toList = (if i < 0 then ['-'] else []) ++ Nat.toDigits 10 i.natAbs := by
  unfold formatInt
  split_ifs <;> rfl

/-- A number as `FormatUint` or `FormatInt` writes it, followed by a comma or a closing brace,
reads back as a number with that text. -/
theorem parseValue_digits (fuel depth n : Nat) (sign : List Char) (hsign : sign = [] ∨ sign = ['-'])
    {d : Char} (hd : d = ',' ∨ d = '}') (rest : List Char) :
    parseValue (fuel + 1) depth (sign ++ Nat.toDigits 10 n ++ d :: rest) =
      some (.number (String.mk (sign ++ Nat.toDigits 10 n)), d :: rest) := by
  obtain ⟨c, cs, hcs, hc⟩ := toDigits_head_isDigit n
  obtain ⟨c', rest', hc', hstart⟩ : ∃ c' rest', sign ++ Nat.toDigits 10 n ++ d :: rest = c' :: rest' ∧
      (c' = '-' ∨ c'.isDigit) := by
    rcases hsign with rfl | rfl
    · exact ⟨c, cs ++ d :: rest, by simp [hcs], .inr hc⟩
    · exact ⟨'-', _, rfl, .inl rfl⟩
  have hspace : isSpace c' = false := by
    rcases hstart with rfl | h
    · rfl
    · exact isSpace_of_isDigit h
  rw [parseValue, hc', skipSpace_of_not_space hspace]
  dsimp only
  rw [if_pos hstart, ← hc', scanNumber_digits n sign hsign hd rest]
  rfl

theorem parseValue_formatUint (fuel depth n : Nat) {d : Char} (hd : d = ',' ∨ d = '}')
    (rest : List Char) :
    parseValue (fuel + 1) depth ((formatUint n).toList ++ d :: rest) =
      some (.number (formatUint n), d :: rest) :=
  parseValue_digits fuel depth n [] (.inl rfl) hd rest

theorem parseValue_formatInt (fuel depth : Nat) (i : Int) {d : Char} (hd : d = ',' ∨ d = '}')
    (rest : List Char) :
    parseValue (fuel + 1) depth ((formatInt i).toList ++ d :: rest) =
      some (.number (formatInt i), d :: rest) := by
  rw [formatInt_toList, parseValue_digits fuel depth _ _ (by split_ifs <;> simp) hd rest,
    ← formatInt_toList]
  rfl

theorem parseValue_formatBool (fuel depth : Nat) (b : Bool) (rest : List Char) :
    parseValue (fuel + 1) depth ((formatBool b).toList ++ rest) = some (.bool b, rest) := by
  cases b
  · rw [show (formatBool false).toList ++ rest = 'f' :: (['a', 'l', 's', 'e'] ++ rest) from rfl,
      parseValue, @skipSpace_of_not_space 'f' rfl]
    simp [keyword, List.prefix_append]
  · rw [show (formatBool true).toList ++ rest = 't' :: (['r', 'u', 'e'] ++ rest) from rfl,
      parseValue, @skipSpace_of_not_space 't' rfl]
    simp [keyword, List.prefix_append]

/-! ### Reading back objects -/

/-- A key as `appendString` writes it, a colon and a value read back as a member. -/
theorem parseMember_appendString {fuel depth : Nat} {input rest : List Char} {v : Value}
    (key : String) (h : parseValue fuel depth input = some (v, rest)) :
    parseMember (fuel + 1) depth (appendString key ++ ':' :: input) = some ((key, v), rest) := by
  rw [appendString_append, parseMember, @skipSpace_of_not_space '"' rfl]
  simp [parseStringBody_flatMap_escapeRune, @skipSpace_of_not_space ':' rfl, h]

theorem parseMembers_comma {fuel depth : Nat} {input rest : List Char} {m : String × Value}
    (members : List (String × Value)) (h : parseMember fuel depth input = some (m, rest)) :
    parseMembers (fuel + 1) depth (',' :: input) members =
      parseMembers fuel depth rest (members ++ [m]) := by
  rw [parseMembers, @skipSpace_of_not_space ',' rfl]
  simp [h]

theorem parseMembers_close (fuel depth : Nat) (members : List (String × Value))
    (rest : List Char) :
    parseMembers (fuel + 1) depth ('}' :: rest) members = some (.object members, rest) := by
  rw [parseMembers, @skipSpace_of_not_space '}' rfl]
  rfl

/-- An object whose first member's key `appendString` wrote: its first member, then the rest. -/
theorem parseValue_object {fuel depth : Nat} (hdepth : depth < maxNestingDepth) (key : String)
    {input rest : List Char} {m : String × Value}
    (h : parseMember fuel (depth + 1) (appendString key ++ input) = some (m, rest)) :
    parseValue (fuel + 1) depth ('{' :: (appendString key ++ input)) =
      parseMembers fuel (depth + 1) rest [m] := by
  rw [parseValue, @skipSpace_of_not_space '{' rfl]
  simp only [show ¬ ('{' = '-' ∨ ('{' : Char).isDigit) by decide, if_false, if_pos hdepth]
  rw [appendString_append, @skipSpace_of_not_space '"' rfl, ← appendString_append, h]
  rfl

end BockIpfs.GoJson
