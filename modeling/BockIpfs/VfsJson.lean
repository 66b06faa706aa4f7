import BockIpfs.FsRoutes
import BockIpfs.NameKeyedFs

/-!
# The persisted index as JSON text

`saveVirtualFsToDisk` writes `JSON.stringify(vfs, null, 2)` to `data/virtualFs.json` and
`loadVirtualFsFromDisk` returns `JSON.parse` of the file's text. Both are modelled here on
character lists: the serializer with its two-space indentation and its string escapes, and the
parser with its whitespace, escapes, surrogate pairs and its rule for repeated keys. The parser
refuses two texts `JSON.parse` accepts: numbers, which no saved index holds, and the `\u` escape
of a surrogate that is not one of a pair, which a Lean string cannot hold.

`JSON.parse` gives back the value `JSON.stringify` wrote for every value whose objects have
distinct keys that are not array indices, and every tree's object is such a value. Loading the
text that the saves wrote therefore gives the object of the tree the tree-level model of
`FsRoutes` loads, where the file is the tree itself, and that object determines the tree.
-/

namespace BockIpfs.VfsJson

open VirtualFs NameKeyedFs

/-- A value `JSON.parse` builds. An object's members are listed in the order its keys are
enumerated. Numbers are left out: the index holds none. -/
inductive Json where
  | null
  | bool (b : Bool)
  | str (s : String)
  | arr (items : List Json)
  | obj (members : List (String × Json))
  deriving Repr

/-! ### `JSON.stringify(value, null, 2)` -/

/-- A lower-case hexadecimal digit, as a `\u` escape writes it. -/
def hexDigit (n : Nat) : Char :=
  if n < 10 then Char.ofNat (48 + n) else Char.ofNat (87 + n)

/-- The JSON single character escapes: a character and the letter after its backslash. -/
def shortEscapes : List (Char × Char) :=
  [('\x08', 'b'), ('\t', 't'), ('\n', 'n'), ('\x0c', 'f'), ('\r', 'r'), ('"', '"'), ('\\', '\\')]

/-- One character of `QuoteJSONString`: a character with a short escape gets it, any other
control character gets a `\u` escape, and every other character stands for itself. -/
def escapeChar (c : Char) : List Char :=
  match shortEscapes.lookup c with
  | some letter => ['\\', letter]
  | none =>
    if c.toNat < 0x20 then ['\\', 'u', '0', '0', hexDigit (c.toNat / 16), hexDigit (c.toNat % 16)]
    else [c]

/-- `QuoteJSONString(s)`. -/
def quote (s : String) : List Char :=
  '"' :: s.toList.flatMap escapeChar ++ ['"']

/-- The indentation at a nesting depth: two spaces a level. -/
def indentation (depth : Nat) : List Char :=
  List.replicate (2 * depth) ' '

mutual
/-- `SerializeJSONProperty` at a nesting depth. A non-empty array or object puts each item on
a line of its own, one level deeper, and its closing bracket on a line at its own depth; a
member's key is followed by a colon and a space. -/
def stringifyAt (depth : Nat) : Json → List Char
  | .null => ['n', 'u', 'l', 'l']
  | .bool true => ['t', 'r', 'u', 'e']
  | .bool false => ['f', 'a', 'l', 's', 'e']
  | .str s => quote s
  | .arr [] => ['[', ']']
  | .arr (item :: items) =>
    '[' :: '\n' :: indentation (depth + 1) ++ stringifyAt (depth + 1) item ++
      stringifyItems depth items
  | .obj [] => ['{', '}']
  | .obj ((key, value) :: members) =>
    '{' :: '\n' :: indentation (depth + 1) ++ quote key ++ ':' :: ' ' ::
      stringifyAt (depth + 1) value ++ stringifyMembers depth members
/-- The items of an array after its first, then its closing bracket. -/
def stringifyItems (depth : Nat) : List Json → List Char
  | [] => '\n' :: indentation depth ++ [']']
  | item :: items =>
    ',' :: '\n' :: indentation (depth + 1) ++ stringifyAt (depth + 1) item ++
      stringifyItems depth items
/-- The members of an object after its first, then its closing brace. -/
def stringifyMembers (depth : Nat) : List (String × Json) → List Char
  | [] => '\n' :: indentation depth ++ ['}']
  | (key, value) :: members =>
    ',' :: '\n' :: indentation (depth + 1) ++ quote key ++ ':' :: ' ' ::
      stringifyAt (depth + 1) value ++ stringifyMembers depth members
end

/-- `JSON.stringify(value, null, 2)`. -/
def stringify (value : Json) : String :=
  String.mk (stringifyAt 0 value)

/-! ### `JSON.parse(text)` -/

/-- `JSON.parse`'s whitespace: space, tab, line feed and carriage return. -/
def isWhitespace (c : Char) : Bool :=
  c == ' ' || c == '\t' || c == '\n' || c == '\r'

/-- The input after its leading whitespace. -/
def skipWhitespace : List Char → List Char
  | [] => []
  | c :: rest => if isWhitespace c then skipWhitespace rest else c :: rest

/-- The value of a hexadecimal digit of either case. -/
def hexValue (c : Char) : Option Nat :=
  if '0' ≤ c ∧ c ≤ '9' then some (c.toNat - 48)
  else if 'a' ≤ c ∧ c ≤ 'f' then some (c.toNat - 87)
  else if 'A' ≤ c ∧ c ≤ 'F' then some (c.toNat - 55)
  else none

/-- The UTF-16 code unit a `\u` escape's four digits stand for. -/
def hexCodeUnit (d1 d2 d3 d4 : Char) : Option Nat :=
  match hexValue d1, hexValue d2, hexValue d3, hexValue d4 with
  | some v1, some v2, some v3, some v4 => some (((v1 * 16 + v2) * 16 + v3) * 16 + v4)
  | _, _, _, _ => none

/-- The character a one-letter escape stands for: a short escape, or an escaped solidus. -/
def escapedChar (letter : Char) : Option Char :=
  (('/', '/') :: shortEscapes.map Prod.swap).lookup letter

/-- The character of a high and a low surrogate. -/
def surrogatePair (high low : Nat) : Char :=
  Char.ofNat (0x10000 + (high - 0xD800) * 0x400 + (low - 0xDC00))

/-- One more character in front of the rest of a string literal. -/
def consChar (c : Char) (body : Option (List Char × List Char)) :
    Option (List Char × List Char) :=
  body.map fun (chars, rest) => (c :: chars, rest)

mutual
/-- The characters of a string literal up to its closing quote, and the input after it. A
control character must be escaped. -/
def parseStringBody : List Char → Option (List Char × List Char)
  | [] => none
  | c :: rest =>
    if c = '"' then some ([], rest)
    else if c = '\\' then parseEscape rest
    else if c.toNat < 0x20 then none
    else consChar c (parseStringBody rest)
/-- The rest of a string literal after a backslash. -/
def parseEscape : List Char → Option (List Char × List Char)
  | [] => none
  | e :: rest =>
    if e = 'u' then parseUnicodeEscape rest
    else (escapedChar e).bind fun c => consChar c (parseStringBody rest)
/-- The rest of a string literal after a backslash and a `u`: four hexadecimal digits. A
surrogate escape must be a high one followed by an escape of a low one. -/
def parseUnicodeEscape : List Char → Option (List Char × List Char)
  | d1 :: d2 :: d3 :: d4 :: rest =>
    (hexCodeUnit d1 d2 d3 d4).bind fun unit =>
      if unit < 0xD800 ∨ 0xDFFF < unit then consChar (Char.ofNat unit) (parseStringBody rest)
      else if unit < 0xDC00 then parseLowSurrogate unit rest
      else none
  | _ => none
/-- The escape of a low surrogate after that of a high one: the two are one character. A
surrogate on its own is refused, since a Lean string cannot hold it. -/
def parseLowSurrogate (high : Nat) : List Char → Option (List Char × List Char)
  | b :: u :: e1 :: e2 :: e3 :: e4 :: rest =>
    (hexCodeUnit e1 e2 e3 e4).bind fun low =>
      if b = '\\' ∧ u = 'u' ∧ 0xDC00 ≤ low ∧ low ≤ 0xDFFF then
        consChar (surrogatePair high low) (parseStringBody rest)
      else none
  | _ => none
end

/-- A member's key and the colon after it: the key and the input after the colon. -/
def parseKey (input : List Char) : Option (String × List Char) :=
  match skipWhitespace input with
  | '"' :: rest =>
    (parseStringBody rest).bind fun (key, rest) =>
      match skipWhitespace rest with
      | ':' :: rest => some (String.mk key, rest)
      | _ => none
  | _ => none

/-- A new array index goes after the indices below it. -/
def insertIndex (key : String) (value : Json) : List (String × Json) → List (String × Json)
  | [] => [(key, value)]
  | member :: members =>
    if isArrayIndex member.1 ∧ decimalValue member.1 < decimalValue key then
      member :: insertIndex key value members
    else (key, value) :: member :: members

/-- `CreateDataProperty(object, key, value)` on the members in enumeration order: a repeated
key keeps its place and takes the new value, a new array index goes among the indices in
ascending order, and any other new key goes last. -/
def setMember (members : List (String × Json)) (key : String) (value : Json) :
    List (String × Json) :=
  if members.any (·.1 == key) then
    members.map fun member => if member.1 = key then (key, value) else member
  else if isArrayIndex key then insertIndex key value members
  else members ++ [(key, value)]

mutual
/-- A value after leading whitespace, and the input after it. `fuel` bounds the nesting and
the number of items. -/
def parseValue : Nat → List Char → Option (Json × List Char)
  | 0, _ => none
  | fuel + 1, input =>
    match skipWhitespace input with
    | 'n' :: 'u' :: 'l' :: 'l' :: rest => some (.null, rest)
    | 't' :: 'r' :: 'u' :: 'e' :: rest => some (.bool true, rest)
    | 'f' :: 'a' :: 'l' :: 's' :: 'e' :: rest => some (.bool false, rest)
    | '"' :: rest => (parseStringBody rest).map fun (chars, rest) => (.str (String.mk chars), rest)
    | '[' :: rest =>
      match skipWhitespace rest with
      | ']' :: rest => some (.arr [], rest)
      | _ => (parseValue fuel rest).bind fun (item, rest) => parseItems fuel rest [item]
    | '{' :: rest =>
      match skipWhitespace rest with
      | '}' :: rest => some (.obj [], rest)
      | _ =>
        (parseKey rest).bind fun (key, rest) =>
          (parseValue fuel rest).bind fun (value, rest) => parseMembers fuel rest [(key, value)]
    | _ => none
/-- The rest of an array after an item: a comma and the next item, or the closing bracket. -/
def parseItems : Nat → List Char → List Json → Option (Json × List Char)
  | 0, _, _ => none
  | fuel + 1, input, items =>
    match skipWhitespace input with
    | ']' :: rest => some (.arr items, rest)
    | ',' :: rest =>
      (parseValue fuel rest).bind fun (item, rest) => parseItems fuel rest (items ++ [item])
    | _ => none
/-- The rest of an object after a member: a comma and the next member, or the closing brace. -/
def parseMembers : Nat → List Char → List (String × Json) → Option (Json × List Char)
  | 0, _, _ => none
  | fuel + 1, input, members =>
    match skipWhitespace input with
    | '}' :: rest => some (.obj members, rest)
    | ',' :: rest =>
      (parseKey rest).bind fun (key, rest) =>
        (parseValue fuel rest).bind fun (value, rest) =>
          parseMembers fuel rest (setMember members key value)
    | _ => none
end

/-- `JSON.parse(text)`: one value and only whitespace after it; `none` where it throws. Every
step of the parser reads a character, so the text's length bounds the fuel it needs. -/
def parse (text : String) : Option Json :=
  match parseValue (text.length + 1) text.toList with
  | some (value, rest) => if skipWhitespace rest = [] then some value else none
  | none => none

/-! ### Well-keyed values -/

mutual
/-- Every object in the value has distinct keys, none of them an array index, so that
`JSON.parse` lists its members in the order they were written. -/
def Json.WellKeyed : Json → Prop
  | .arr items => ItemsWellKeyed items
  | .obj members => (members.map Prod.fst).Nodup ∧ MembersWellKeyed members
  | _ => True
/-- Every item of an array is well keyed. -/
def ItemsWellKeyed : List Json → Prop
  | [] => True
  | item :: items => item.WellKeyed ∧ ItemsWellKeyed items
/-- No key of an object is an array index, and every value is well keyed. -/
def MembersWellKeyed : List (String × Json) → Prop
  | [] => True
  | (key, value) :: members =>
    isArrayIndex key = false ∧ value.WellKeyed ∧ MembersWellKeyed members
end

mutual
/-- The fuel `parseValue` needs for a value: one for each value and one for each end of an
array or object. -/
def Json.size : Json → Nat
  | .arr items => itemsSize items + 1
  | .obj members => membersSize members + 1
  | _ => 1
/-- The fuel `parseItems` needs for the items after an array's first. -/
def itemsSize : List Json → Nat
  | [] => 1
  | item :: items => item.size + itemsSize items + 1
/-- The fuel `parseMembers` needs for the members after an object's first. -/
def membersSize : List (String × Json) → Nat
  | [] => 1
  | (_, value) :: members => value.size + membersSize members + 1
end

/-! ### The index file -/

mutual
/-- The object a tree node is, with its own properties in the order the code creates them. -/
def toJson : VfsNode → Json
  | .file name cid timestamp =>
    .obj [("name", .str name), ("type", .str "file"), ("cid", .str cid),
      ("timestamp", .str timestamp)]
  | .folder name children =>
    .obj [("name", .str name), ("type", .str "folder"), ("children", .arr (toJsonList children))]
/-- The array of a folder's children. -/
def toJsonList : List VfsNode → List Json
  | [] => []
  | child :: children => toJson child :: toJsonList children
end

/-- The file's text after `saveVirtualFsToDisk(vfs)`. -/
def saveVirtualFsToDisk (vfs : VfsNode) : Option String :=
  some (stringify (toJson vfs))

/-- `loadVirtualFsFromDisk()` on the file's text (`none` while the file is missing): the parsed
object, or a fresh root; `none` where `JSON.parse` throws. -/
def loadVirtualFsFromDisk (file : Option String) : Option Json :=
  match file with
  | none => some (toJson (.folder "/" []))
  | some raw => parse raw

/-- The text of the file the tree-level model holds. -/
def fileText (disk : Option VfsNode) : Option String :=
  disk.bind saveVirtualFsToDisk

example : stringify (toJson createVirtualFs) =
    "\x7b\n  \"name\": \"/\",\n  \"type\": \"folder\",\n  \"children\": []\n\x7d" := by
  decide

/-! ### Reading back what was written -/

/-- Whitespace in front of the input is skipped. -/
theorem skipWhitespace_append {pre : List Char} (h : pre.all isWhitespace) (input : List Char) :
    skipWhitespace (pre ++ input) = skipWhitespace input := by
  induction pre with
  | nil => rfl
  | cons c pre ih =>
    simp only [List.all_cons, Bool.and_eq_true] at h
    simp [skipWhitespace, h.1, ih h.2]

@[simp] theorem all_isWhitespace_indentation (depth : Nat) :
    (indentation depth).all isWhitespace = true := by
  simp [indentation, isWhitespace]

theorem skipWhitespace_cons {c : Char} (hc : isWhitespace c = false) (rest : List Char) :
    skipWhitespace (c :: rest) = c :: rest := by
  simp [skipWhitespace, hc]

theorem skipWhitespace_newline (depth : Nat) (input : List Char) :
    skipWhitespace ('\n' :: (indentation depth ++ input)) = skipWhitespace input :=
  @skipWhitespace_append ('\n' :: indentation depth) (by simp [isWhitespace]) input

/-- A serialized value starts with a literal's letter, a quote or an opening bracket. -/
theorem stringifyAt_eq_cons (depth : Nat) : ∀ value : Json,
    ∃ c chars, stringifyAt depth value = c :: chars ∧ isWhitespace c = false ∧ c ≠ ']'
  | .null | .bool true | .bool false | .str _ | .arr [] | .arr (_ :: _) | .obj []
  | .obj ((_, _) :: _) => ⟨_, _, rfl, rfl, by decide⟩

@[simp] theorem skipWhitespace_stringifyAt (depth : Nat) (value : Json) (rest : List Char) :
    skipWhitespace (stringifyAt depth value ++ rest) = stringifyAt depth value ++ rest := by
  obtain ⟨c, chars, h, hc, -⟩ := stringifyAt_eq_cons depth value
  simp [h, skipWhitespace, hc]

/-- A digit of a `\u` escape reads back as its value. -/
theorem hexValue_hexDigit : ∀ n < 16, hexValue (hexDigit n) = some n := by decide

/-- The letter of a short escape reads back as the escaped character, and is not a `u`. -/
theorem escapedChar_of_lookup {c letter : Char} (h : shortEscapes.lookup c = some letter) :
    escapedChar letter = some c ∧ letter ≠ 'u' := by
  obtain ⟨pre, post, hl, -⟩ := List.lookup_eq_some_iff.1 h
  have hmem : (c, letter) ∈ shortEscapes :=
    hl ▸ List.mem_append_right _ (List.mem_cons_self _ _)
  have table : ∀ p ∈ shortEscapes, escapedChar p.2 = some p.1 ∧ p.2 ≠ 'u' := by decide
  exact table _ hmem

/-- The escape of one character reads back as that character. -/
theorem parseStringBody_escapeChar (c : Char) (rest : List Char) :
    parseStringBody (escapeChar c ++ rest) = consChar c (parseStringBody rest) := by
  unfold escapeChar
  cases h : shortEscapes.lookup c with
  | some letter =>
    obtain ⟨he, hu⟩ := escapedChar_of_lookup h
    show parseEscape (letter :: rest) = _
    rw [parseEscape, if_neg hu, he, Option.some_bind]
  | none =>
    have hnone := List.lookup_eq_none_iff.1 h
    have h1 : c ≠ '"' := by simpa using hnone ('"', '"') (by decide)
    have h2 : c ≠ '\\' := by simpa using hnone ('\\', '\\') (by decide)
    by_cases hlt : c.toNat < 0x20
    · -- a control character without a short escape: its code in two hexadecimal digits
      have hv : hexCodeUnit '0' '0' (hexDigit (c.toNat / 16)) (hexDigit (c.toNat % 16)) =
          some c.toNat := by
        rw [hexCodeUnit, hexValue_hexDigit _ (by omega),
          hexValue_hexDigit _ (Nat.mod_lt _ (by decide))]
        show some (((0 * 16 + 0) * 16 + c.toNat / 16) * 16 + c.toNat % 16) = _
        congr 1
        omega
      rw [if_pos hlt]
      show (hexCodeUnit '0' '0' (hexDigit (c.toNat / 16)) (hexDigit (c.toNat % 16))).bind
        (fun unit => if unit < 0xD800 ∨ 0xDFFF < unit then
          consChar (Char.ofNat unit) (parseStringBody rest)
          else if unit < 0xDC00 then parseLowSurrogate unit rest else none) = _
      rw [hv, Option.some_bind, if_pos (Or.inl (by omega)), Char.ofNat_toNat]
    · rw [if_neg hlt, List.singleton_append, parseStringBody, if_neg h1, if_neg h2, if_neg hlt]

/-- A string's escaped characters and the closing quote read back as the string. -/
theorem parseStringBody_quote (s : String) (rest : List Char) :
    parseStringBody (s.toList.flatMap escapeChar ++ '"' :: rest) = some (s.toList, rest) := by
  induction s.toList with
  | nil => rfl
  | cons c chars ih =>
    rw [List.flatMap_cons, List.append_assoc, parseStringBody_escapeChar, ih]
    rfl

theorem quote_append (s : String) (rest : List Char) :
    quote s ++ rest = '"' :: (s.toList.flatMap escapeChar ++ '"' :: rest) := by
  simp [quote]

/-- A member's key on a new line reads back, with the colon after it. -/
theorem parseKey_quote (depth : Nat) (key : String) (rest : List Char) :
    parseKey ('\n' :: (indentation depth ++ (quote key ++ ':' :: rest))) = some (key, rest) := by
  rw [parseKey, skipWhitespace_newline, quote_append, @skipWhitespace_cons '"' rfl]
  show (parseStringBody _).bind _ = _
  rw [parseStringBody_quote, Option.some_bind]
  rfl

/-- A new key that is no array index goes last. -/
theorem setMember_fresh {members : List (String × Json)} {key : String} (value : Json)
    (hfresh : key ∉ members.map Prod.fst) (hkey : isArrayIndex key = false) :
    setMember members key value = members ++ [(key, value)] := by
  have hany : members.any (·.1 == key) = false := List.any_eq_false.2 fun m hm h =>
    hfresh (beq_iff_eq.1 h ▸ List.mem_map_of_mem Prod.fst hm)
  simp [setMember, hany, hkey]

theorem Json.size_pos : ∀ value : Json, 0 < value.size
  | .null | .bool _ | .str _ => Nat.one_pos
  | .arr _ | .obj _ => Nat.succ_pos _

theorem itemsSize_pos : ∀ items : List Json, 0 < itemsSize items
  | [] => Nat.one_pos
  | _ :: _ => Nat.succ_pos _

theorem membersSize_pos : ∀ members : List (String × Json), 0 < membersSize members
  | [] => Nat.one_pos
  | (_, _) :: _ => Nat.succ_pos _

theorem parseValue_whitespace {pre : List Char} (hpre : pre.all isWhitespace) (fuel : Nat)
    (input : List Char) : parseValue fuel (pre ++ input) = parseValue fuel input := by
  cases fuel with
  | zero => rfl
  | succ fuel => rw [parseValue, parseValue, skipWhitespace_append hpre]

theorem parseValue_newline (depth fuel : Nat) (input : List Char) :
    parseValue fuel ('\n' :: (indentation depth ++ input)) = parseValue fuel input :=
  @parseValue_whitespace ('\n' :: indentation depth) (by simp [isWhitespace]) fuel input

theorem parseValue_space (fuel : Nat) (input : List Char) :
    parseValue fuel (' ' :: input) = parseValue fuel input :=
  @parseValue_whitespace [' '] rfl fuel input

/-- An array that is not empty: its first item, then the rest. -/
theorem parseValue_array (fuel : Nat) (input : List Char)
    (hopen : ∀ rest, skipWhitespace input ≠ ']' :: rest) :
    parseValue (fuel + 1) ('[' :: input) =
      (parseValue fuel input).bind fun (item, rest) => parseItems fuel rest [item] := by
  rw [parseValue, @skipWhitespace_cons '[' rfl]
  show (match skipWhitespace input with
    | ']' :: rest => some (Json.arr [], rest)
    | _ => (parseValue fuel input).bind fun (item, rest) => parseItems fuel rest [item]) = _
  split
  · exact absurd ‹_› (hopen _)
  · rfl

/-- An object that is not empty: its first member, then the rest. -/
theorem parseValue_object (fuel : Nat) (input : List Char)
    (hopen : ∀ rest, skipWhitespace input ≠ '}' :: rest) :
    parseValue (fuel + 1) ('{' :: input) =
      (parseKey input).bind fun (key, rest) =>
        (parseValue fuel rest).bind fun (value, rest) => parseMembers fuel rest [(key, value)] := by
  rw [parseValue, @skipWhitespace_cons '{' rfl]
  show (match skipWhitespace input with
    | '}' :: rest => some (Json.obj [], rest)
    | _ => (parseKey input).bind fun (key, rest) =>
        (parseValue fuel rest).bind fun (value, rest) => parseMembers fuel rest [(key, value)]) = _
  split
  · exact absurd ‹_› (hopen _)
  · rfl

mutual
/-- `JSON.parse` reads back a well-keyed value `JSON.stringify` wrote at any depth, with fuel
above its size, leaving the input after it; likewise the items and members after the first. -/
theorem parseValue_stringifyAt : ∀ (value : Json) (depth fuel : Nat) (rest : List Char),
    value.WellKeyed → value.size ≤ fuel →
      parseValue fuel (stringifyAt depth value ++ rest) = some (value, rest)
  | value, _, 0, _, _, h => absurd h (Nat.not_le.2 value.size_pos)
  | .null, _, _ + 1, _, _, _ => rfl
  | .bool true, _, _ + 1, _, _, _ => rfl
  | .bool false, _, _ + 1, _, _, _ => rfl
  | .str s, depth, fuel + 1, rest, _, _ => by
    rw [parseValue, skipWhitespace_stringifyAt]
    show Option.map _ (parseStringBody ((s.toList.flatMap escapeChar ++ ['"']) ++ rest)) = _
    rw [List.append_assoc, List.singleton_append, parseStringBody_quote]
    rfl
  | .arr [], _, _ + 1, _, _, _ => rfl
  | .arr (item :: items), depth, fuel + 1, rest, ⟨hitem, hitems⟩, hsize => by
    simp only [Json.size, itemsSize] at hsize
    have hv := parseValue_stringifyAt item (depth + 1) fuel (stringifyItems depth items ++ rest)
      hitem (by omega)
    have hi := parseItems_stringifyItems items depth fuel [item] rest hitems (by omega)
    -- the first item opens with a literal, a quote or a bracket, so the array is not empty
    have hopen : ∀ r, skipWhitespace ('\n' :: (indentation (depth + 1) ++
        (stringifyAt (depth + 1) item ++ (stringifyItems depth items ++ rest)))) ≠ ']' :: r := by
      obtain ⟨c, chars, hc, -, hclose⟩ := stringifyAt_eq_cons (depth + 1) item
      rw [skipWhitespace_newline, skipWhitespace_stringifyAt, hc, List.cons_append]
      exact fun r h => hclose (List.cons.inj h).1
    simp only [stringifyAt, List.cons_append, List.append_assoc]
    rw [parseValue_array _ _ hopen, parseValue_newline, hv]
    simp only [Option.some_bind, hi, List.singleton_append]
  | .obj [], _, _ + 1, _, _, _ => rfl
  | .obj ((key, value) :: members), depth, fuel + 1, rest, ⟨hnodup, hkey, hvalue, hmembers⟩,
      hsize => by
    simp only [Json.size, membersSize] at hsize
    have hv := parseValue_stringifyAt value (depth + 1) fuel
      (stringifyMembers depth members ++ rest) hvalue (by omega)
    have hm := parseMembers_stringifyMembers members depth fuel [(key, value)] rest hnodup hmembers
      (by omega)
    have hopen : ∀ r, skipWhitespace ('\n' :: (indentation (depth + 1) ++ (quote key ++
        ':' :: ' ' :: (stringifyAt (depth + 1) value ++ (stringifyMembers depth members ++ rest))))) ≠
          '}' :: r := by
      rw [skipWhitespace_newline, quote_append, @skipWhitespace_cons '"' rfl]
      exact fun r h => absurd (List.cons.inj h).1 (by decide)
    simp only [stringifyAt, List.cons_append, List.append_assoc]
    rw [parseValue_object _ _ hopen, parseKey_quote]
    simp only [Option.some_bind, parseValue_space, hv, hm, List.singleton_append]
theorem parseItems_stringifyItems : ∀ (items : List Json) (depth fuel : Nat) (acc : List Json)
    (rest : List Char), ItemsWellKeyed items → itemsSize items ≤ fuel →
      parseItems fuel (stringifyItems depth items ++ rest) acc = some (.arr (acc ++ items), rest)
  | items, _, 0, _, _, _, h => absurd h (Nat.not_le.2 (itemsSize_pos items))
  | [], depth, fuel + 1, acc, rest, _, _ => by
    simp only [stringifyItems, List.cons_append, List.append_assoc, List.singleton_append]
    rw [parseItems, skipWhitespace_newline, @skipWhitespace_cons ']' rfl, List.append_nil]
    rfl
  | item :: items, depth, fuel + 1, acc, rest, ⟨hitem, hitems⟩, hsize => by
    simp only [itemsSize] at hsize
    have hv := parseValue_stringifyAt item (depth + 1) fuel (stringifyItems depth items ++ rest)
      hitem (by omega)
    have hi := parseItems_stringifyItems items depth fuel (acc ++ [item]) rest hitems (by omega)
    simp only [stringifyItems, List.cons_append, List.append_assoc]
    rw [parseItems, @skipWhitespace_cons ',' rfl]
    simp only [parseValue_newline, hv, Option.some_bind, hi, List.append_assoc,
      List.singleton_append]
theorem parseMembers_stringifyMembers : ∀ (members : List (String × Json)) (depth fuel : Nat)
    (acc : List (String × Json)) (rest : List Char), ((acc ++ members).map Prod.fst).Nodup →
      MembersWellKeyed members → membersSize members ≤ fuel →
        parseMembers fuel (stringifyMembers depth members ++ rest) acc =
          some (.obj (acc ++ members), rest)
  | members, _, 0, _, _, _, _, h => absurd h (Nat.not_le.2 (membersSize_pos members))
  | [], depth, fuel + 1, acc, rest, _, _, _ => by
    simp only [stringifyMembers, List.cons_append, List.append_assoc, List.singleton_append]
    rw [parseMembers, skipWhitespace_newline, @skipWhitespace_cons '}' rfl, List.append_nil]
    rfl
  | (key, value) :: members, depth, fuel + 1, acc, rest, hnodup, ⟨hkey, hvalue, hmembers⟩,
      hsize => by
    simp only [membersSize] at hsize
    have hfresh : key ∉ acc.map Prod.fst := by
      simp only [List.map_append, List.map_cons] at hnodup
      exact fun h => (List.nodup_append.1 hnodup).2.2 h (List.mem_cons_self _ _)
    have hv := parseValue_stringifyAt value (depth + 1) fuel
      (stringifyMembers depth members ++ rest) hvalue (by omega)
    have hm := parseMembers_stringifyMembers members depth fuel (acc ++ [(key, value)]) rest
      (by simpa using hnodup) hmembers (by omega)
    simp only [stringifyMembers, List.cons_append, List.append_assoc]
    rw [parseMembers, @skipWhitespace_cons ',' rfl]
    simp only [parseKey_quote, Option.some_bind, parseValue_space, hv,
      setMember_fresh value hfresh hkey, hm, List.append_assoc, List.singleton_append]
end


mutual
/-- A value's size is at most the length of its text, so the text's length is enough fuel. -/
theorem size_le_length (depth : Nat) :
    ∀ value : Json, value.size ≤ (stringifyAt depth value).length
  | .null | .bool true | .bool false | .arr [] | .obj [] => by
    simp [Json.size, stringifyAt, itemsSize, membersSize]
  | .str _ => by simp [Json.size, stringifyAt, quote]
  | .arr (item :: items) => by
    have := size_le_length (depth + 1) item
    have := itemsSize_le_length depth items
    simp only [Json.size, itemsSize, stringifyAt, List.length_cons, List.length_append]
    omega
  | .obj ((_, value) :: members) => by
    have := size_le_length (depth + 1) value
    have := membersSize_le_length depth members
    simp only [Json.size, membersSize, stringifyAt, List.length_cons, List.length_append]
    omega
theorem itemsSize_le_length (depth : Nat) :
    ∀ items : List Json, itemsSize items ≤ (stringifyItems depth items).length
  | [] => by simp [itemsSize, stringifyItems]
  | item :: items => by
    have := size_le_length (depth + 1) item
    have := itemsSize_le_length depth items
    simp only [itemsSize, stringifyItems, List.length_cons, List.length_append]
    omega
theorem membersSize_le_length (depth : Nat) :
    ∀ members : List (String × Json),
      membersSize members ≤ (stringifyMembers depth members).length
  | [] => by simp [membersSize, stringifyMembers]
  | (_, value) :: members => by
    have := size_le_length (depth + 1) value
    have := membersSize_le_length depth members
    simp only [membersSize, stringifyMembers, List.length_cons, List.length_append]
    omega
end

/-- `JSON.parse(JSON.stringify(value, null, 2))` gives back every value whose objects have
distinct keys that are not array indices. -/
theorem parse_stringify (value : Json) (h : value.WellKeyed) :
    parse (stringify value) = some value := by
  have hparse := parseValue_stringifyAt value 0 ((stringifyAt 0 value).length + 1) [] h
    (by have := size_le_length 0 value; omega)
  rw [List.append_nil] at hparse
  show (match parseValue ((stringifyAt 0 value).length + 1) (stringifyAt 0 value) with
    | some (value, rest) => if skipWhitespace rest = [] then some value else none
    | none => none) = _
  rw [hparse]
  rfl

mutual
/-- Every tree's object is well keyed: its keys are `name`, `type` and `cid`, `timestamp` or
`children`. -/
theorem toJson_wellKeyed : ∀ node : VfsNode, (toJson node).WellKeyed
  | .file .. => by
    simp only [toJson, Json.WellKeyed, MembersWellKeyed, List.map_cons, List.map_nil, true_and,
      and_true]
    decide
  | .folder _ children => by
    simp only [toJson, Json.WellKeyed, MembersWellKeyed, List.map_cons, List.map_nil, true_and,
      and_true]
    refine ⟨?_, ?_, ?_, ?_, toJsonList_wellKeyed children⟩ <;> decide
theorem toJsonList_wellKeyed : ∀ children : List VfsNode, ItemsWellKeyed (toJsonList children)
  | [] => True.intro
  | child :: children => And.intro (toJson_wellKeyed child) (toJsonList_wellKeyed children)
end

mutual
/-- A tree's object determines the tree. -/
theorem toJson_inj : ∀ a b : VfsNode, toJson a = toJson b → a = b
  | .file .., .file .., h => by simp_all [toJson]
  | .file .., .folder .., h | .folder .., .file .., h => by simp [toJson] at h
  | .folder _ children, .folder _ children', h => by
    simp only [toJson, Json.obj.injEq, List.cons.injEq, Prod.mk.injEq, Json.str.injEq,
      Json.arr.injEq, true_and, and_true] at h
    rw [h.1, toJsonList_inj children children' h.2]
theorem toJsonList_inj : ∀ as bs : List VfsNode, toJsonList as = toJsonList bs → as = bs
  | [], [], _ => rfl
  | [], _ :: _, h | _ :: _, [], h => by simp [toJsonList] at h
  | a :: as, b :: bs, h => by
    simp only [toJsonList, List.cons.injEq] at h
    rw [toJson_inj a b h.1, toJsonList_inj as bs h.2]
end

/-- The text file refines the tree-level file of `FsRoutes`: loading the text that the saves
wrote, or a missing file, gives the object of the tree `FsRoutes.loadVirtualFsFromDisk` loads,
and that object determines the tree (`toJson_inj`). -/
theorem loadVirtualFsFromDisk_fileText : ∀ disk : Option VfsNode,
    loadVirtualFsFromDisk (fileText disk) = some (toJson (FsRoutes.loadVirtualFsFromDisk disk))
  | none => rfl
  | some vfs => parse_stringify _ (toJson_wellKeyed vfs)

/-- A tree whose file name needs escapes reads back from the text it is saved as. -/
theorem escaped_name_read_back :
    (toJson (.folder "/" [.file "say \"hi\"\n.txt" "QmX" "t0"])).WellKeyed ∧
      parse (stringify (toJson (.folder "/" [.file "say \"hi\"\n.txt" "QmX" "t0"]))) =
        some (toJson (.folder "/" [.file "say \"hi\"\n.txt" "QmX" "t0"])) :=
  ⟨toJson_wellKeyed _, parse_stringify _ (toJson_wellKeyed _)⟩

end BockIpfs.VfsJson
