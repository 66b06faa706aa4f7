import BockIpfs.GoJson
import BockIpfs.FilesStatOutput

/-!
# `statOutput`'s JSON codec

`MarshalJSON` and `UnmarshalJSON` both go through a wrapper that embeds the receiver as `*so`
and adds a `Mode string` field, which shadows the embedded `Mode uint32`: the JSON object has
the receiver's fields but `Mode`, then `Mode` as the `%04o` text of the mode, left out when it
is zero. `UnmarshalJSON` decodes into the wrapper and parses a non-empty `Mode` in base 8.

Decoding what `MarshalJSON` wrote gives back the value, field for field, for every value whose
64-bit fields Go can hold. The decoder's two oddities are modelled as the code has them: a
`Mode` that does not parse is dropped without an error, since the `err` it sets is declared
anew inside the `if`, and the text `null` sets `tmp` to nil, after which `tmp.Mode` panics.
-/

namespace BockIpfs.StatJson

open GoJson FilesStatOutput

/-! ### The fields -/

/-- The Go types of the fields. `int` is 64 bits wide, as on 64-bit platforms. -/
inductive GoKind where
  | string
  | uint64
  | int
  | int64
  | bool
  deriving DecidableEq, Repr

/-- The name an `UnmarshalTypeError` gives the type. -/
def GoKind.name : GoKind → String
  | .string => "string"
  | .uint64 => "uint64"
  | .int => "int"
  | .int64 => "int64"
  | .bool => "bool"

/-- A value of one of those types. -/
inductive GoValue where
  | str (s : String)
  | uint (n : Nat)
  | int (i : Int)
  | bool (b : Bool)
  deriving DecidableEq, Repr

/-- `isEmptyValue`: the zero value of its type. -/
def GoValue.isEmpty : GoValue → Bool
  | .str s => s == ""
  | .uint n => n == 0
  | .int i => i == 0
  | .bool b => !b

/-- The encoder of the value's type. -/
def GoValue.encode : GoValue → List Char
  | .str s => appendString s
  | .uint n => (formatUint n).toList
  | .int i => (formatInt i).toList
  | .bool b => (formatBool b).toList

/-- What the decoder reads the encoder's text as. -/
def GoValue.toValue : GoValue → Value
  | .str s => .string s
  | .uint n => .number (formatUint n)
  | .int i => .number (formatInt i)
  | .bool b => .bool b

/-- The string of a string value. -/
def GoValue.asString : GoValue → String
  | .str s => s
  | _ => ""

/-- The number of an unsigned value. -/
def GoValue.asNat : GoValue → Nat
  | .uint n => n
  | _ => 0

/-- The number of a signed value. -/
def GoValue.asInt : GoValue → Int
  | .int i => i
  | _ => 0

/-- The truth value of a boolean value. -/
def GoValue.asBool : GoValue → Bool
  | .bool b => b
  | _ => false

/-- The wrapper both methods build: the receiver's fields through the embedded `*so`, and the
`Mode` string. -/
structure Wrapper where
  /-- The receiver, which `so` points at. -/
  so : StatOutput
  /-- The wrapper's own `Mode`. -/
  mode : String

/-- The wrapper's JSON fields: `so`'s fields but its shadowed `Mode`, then the `Mode` string. -/
inductive Field where
  | hash
  | size
  | cumulativeSize
  | blocks
  | type
  | withLocality
  | isLocal
  | sizeLocal
  | mtime
  | mtimeNsecs
  | mode
  deriving DecidableEq, Repr

/-- The fields in the order the encoder writes them: by index, the embedded struct first. -/
def fields : List Field :=
  [.hash, .size, .cumulativeSize, .blocks, .type, .withLocality, .isLocal, .sizeLocal, .mtime,
    .mtimeNsecs, .mode]

/-- The field's JSON name: its Go name. -/
def Field.name : Field → String
  | .hash => "Hash"
  | .size => "Size"
  | .cumulativeSize => "CumulativeSize"
  | .blocks => "Blocks"
  | .type => "Type"
  | .withLocality => "WithLocality"
  | .isLocal => "Local"
  | .sizeLocal => "SizeLocal"
  | .mtime => "Mtime"
  | .mtimeNsecs => "MtimeNsecs"
  | .mode => "Mode"

/-- The field's Go type. -/
def Field.kind : Field → GoKind
  | .hash | .type | .mode => .string
  | .size | .cumulativeSize | .sizeLocal => .uint64
  | .blocks | .mtimeNsecs => .int
  | .mtime => .int64
  | .withLocality | .isLocal => .bool

/-- Whether the field's tag has `omitempty`. -/
def Field.omitEmpty : Field → Bool
  | .hash | .size | .cumulativeSize | .blocks | .type => false
  | _ => true

/-- The field's value in the wrapper. -/
def Field.get (w : Wrapper) : Field → GoValue
  | .hash => .str w.so.hash
  | .size => .uint w.so.size.toNat
  | .cumulativeSize => .uint w.so.cumulativeSize.toNat
  | .blocks => .int w.so.blocks
  | .type => .str w.so.type
  | .withLocality => .bool w.so.withLocality
  | .isLocal => .bool w.so.isLocal
  | .sizeLocal => .uint w.so.sizeLocal.toNat
  | .mtime => .int w.so.mtime
  | .mtimeNsecs => .int w.so.mtimeNsecs
  | .mode => .str w.mode

/-- The wrapper with the field set to a value of its type. -/
def Field.set (w : Wrapper) (v : GoValue) : Field → Wrapper
  | .hash => { w with so.hash := v.asString }
  | .size => { w with so.size := UInt64.ofNat v.asNat }
  | .cumulativeSize => { w with so.cumulativeSize := UInt64.ofNat v.asNat }
  | .blocks => { w with so.blocks := v.asInt }
  | .type => { w with so.type := v.asString }
  | .withLocality => { w with so.withLocality := v.asBool }
  | .isLocal => { w with so.isLocal := v.asBool }
  | .sizeLocal => { w with so.sizeLocal := UInt64.ofNat v.asNat }
  | .mtime => { w with so.mtime := v.asInt }
  | .mtimeNsecs => { w with so.mtimeNsecs := v.asInt }
  | .mode => { w with mode := v.asString }

/-- Setting one field leaves every other field as it was. -/
theorem get_set_of_ne {f g : Field} (h : f ≠ g) (w : Wrapper) (v : GoValue) :
    g.get (f.set w v) = g.get w := by
  cases f <;> cases g <;> first | rfl | exact absurd rfl h

theorem uint64_ofNat_toNat (x : UInt64) : UInt64.ofNat x.toNat = x :=
  UInt64.toNat.inj (UInt64.toNat_ofNat_of_lt x.toNat_lt_size)

theorem uint32_ofNat_toNat (x : UInt32) : UInt32.ofNat x.toNat = x :=
  UInt32.toNat.inj (UInt32.toNat_ofNat_of_lt x.toNat_lt_size)

/-- Setting a field to the value it holds changes nothing. -/
theorem set_get (f : Field) (w : Wrapper) : f.set w (f.get w) = w := by
  cases f <;> simp only [Field.set, Field.get, GoValue.asString, GoValue.asNat, GoValue.asInt,
    GoValue.asBool, uint64_ofNat_toNat]

/-! ### `MarshalJSON` -/

/-- The struct encoder's loop: each field in order, left out when it has `omitempty` and is
empty, and otherwise written after `{` or a comma as its quoted name, a colon and its value. -/
def encodeFields (w : Wrapper) (next : Char) : List Field → List Char
  | [] => if next = '{' then ['{', '}'] else ['}']
  | f :: fs =>
    if f.omitEmpty && (f.get w).isEmpty then encodeFields w next fs
    else next :: (appendString f.name ++ ':' :: (f.get w).encode) ++ encodeFields w ',' fs

/-- The wrapper `MarshalJSON` builds: `Mode` is the `%04o` text of the mode when it is not
zero. -/
def marshalOut (s : StatOutput) : Wrapper :=
  ⟨s, if s.mode ≠ 0 then formatOctal 4 s.mode.toNat else ""⟩

/-- `s.MarshalJSON()`: the wrapper through `json.Marshal`, which cannot fail on it. -/
def marshalJSON (s : StatOutput) : String :=
  String.mk (encodeFields (marshalOut s) '{' fields)

theorem formatOctal_ne_empty (width n : Nat) : formatOctal width n ≠ "" :=
  string_mk_ne_empty (by simp [toDigits_ne_nil])

/-- A value as its type's encoder writes it, followed by a comma or a closing brace, reads back. -/
theorem parseValue_encode (fuel depth : Nat) (v : GoValue) {d : Char} (hd : d = ',' ∨ d = '}')
    (rest : List Char) :
    parseValue (fuel + 1) depth (v.encode ++ d :: rest) = some (v.toValue, d :: rest) := by
  cases v with
  | str s => exact parseValue_appendString fuel depth s _
  | uint n => exact parseValue_formatUint fuel depth n hd rest
  | int i => exact parseValue_formatInt fuel depth i hd rest
  | bool b => exact parseValue_formatBool fuel depth b _

/-- After the first member, the encoder writes a comma or the closing brace. -/
theorem encodeFields_comma (w : Wrapper) :
    ∀ fs : List Field, ∃ d t, encodeFields w ',' fs = d :: t ∧ (d = ',' ∨ d = '}')
  | [] => ⟨'}', [], rfl, .inr rfl⟩
  | f :: fs => by
    rw [encodeFields]
    split_ifs
    · exact encodeFields_comma w fs
    · exact ⟨',', _, rfl, .inl rfl⟩

/-- The members the encoder's text holds: each field it writes, with the value the decoder
reads. -/
def encodedMembers (w : Wrapper) : List Field → List (String × Value)
  | [] => []
  | f :: fs =>
    if f.omitEmpty && (f.get w).isEmpty then encodedMembers w fs
    else (f.name, (f.get w).toValue) :: encodedMembers w fs

/-- The decoder reads the members after the first back, given two steps of fuel a field. -/
theorem parseMembers_encodeFields (w : Wrapper) (depth : Nat) : ∀ (fs : List Field) (fuel : Nat)
    (members : List (String × Value)) (rest : List Char), 2 * fs.length < fuel →
    parseMembers fuel depth (encodeFields w ',' fs ++ rest) members =
      some (.object (members ++ encodedMembers w fs), rest)
  | [], fuel + 1, members, rest, _ => by
    simp [encodeFields, encodedMembers, parseMembers_close]
  | f :: fs, fuel + 1, members, rest, hfuel => by
    simp only [List.length_cons] at hfuel
    rw [encodeFields, encodedMembers]
    split_ifs
    · exact parseMembers_encodeFields w depth fs (fuel + 1) members rest (by omega)
    · obtain ⟨d, t, ht, hd⟩ := encodeFields_comma w fs
      obtain ⟨k, rfl⟩ : ∃ k, fuel = k + 2 := ⟨fuel - 2, by omega⟩
      have hmember : parseMember (k + 2) depth
          (appendString f.name ++ ':' :: ((f.get w).encode ++ (encodeFields w ',' fs ++ rest))) =
            some ((f.name, (f.get w).toValue), encodeFields w ',' fs ++ rest) := by
        rw [ht, List.cons_append]
        exact parseMember_appendString f.name (parseValue_encode k depth _ hd _)
      simp only [List.cons_append, List.append_assoc]
      rw [parseMembers_comma members hmember,
        parseMembers_encodeFields w depth fs (k + 2) _ rest (by omega)]
      simp

/-- `MarshalJSON`'s text is the object of the members it writes. -/
theorem parse_marshalJSON (s : StatOutput) :
    parse (marshalJSON s) = some (.object (encodedMembers (marshalOut s) fields)) := by
  have htext : (marshalJSON s).toList = '{' :: (appendString "Hash" ++ ':' ::
      ((Field.hash.get (marshalOut s)).encode ++ (encodeFields (marshalOut s) ',' fields.tail ++ []))) := by
    simp [marshalJSON, fields, encodeFields, Field.omitEmpty, Field.name]
  have hlen : 23 < (marshalJSON s).length := by
    have h16 : (appendString "CumulativeSize").length = 16 := rfl
    have h6 : (appendString "Size").length = 6 := rfl
    simp only [marshalJSON, String.length, fields, encodeFields, Field.omitEmpty, Field.name,
      Bool.false_and, Bool.false_eq_true, if_false, List.length_cons, List.length_append, h16, h6]
    omega
  obtain ⟨k, hk⟩ : ∃ k, (marshalJSON s).length = k + 23 := ⟨_, (Nat.sub_add_cancel hlen.le).symm⟩
  obtain ⟨d, t, ht, hd⟩ := encodeFields_comma (marshalOut s) fields.tail
  have hmember : parseMember (k + 23) 1 (appendString "Hash" ++ ':' ::
      ((Field.hash.get (marshalOut s)).encode ++ (encodeFields (marshalOut s) ',' fields.tail ++ []))) =
        some (("Hash", (Field.hash.get (marshalOut s)).toValue),
          encodeFields (marshalOut s) ',' fields.tail ++ []) := by
    rw [ht, List.cons_append]
    exact parseMember_appendString "Hash" (parseValue_encode (k + 21) 1 _ hd _)
  unfold parse
  rw [hk, htext, parseValue_object (by decide) "Hash" hmember,
    parseMembers_encodeFields (marshalOut s) (0 + 1) fields.tail (k + 23) _ [] (by simp [fields])]
  simp [skipSpace, fields, encodedMembers, Field.omitEmpty, Field.name]

/-! ### `UnmarshalJSON` -/

/-- `json.UnmarshalTypeError`: what the JSON value was, the struct field if any, and the Go
type. -/
structure TypeError where
  /-- The JSON value's description. -/
  value : String
  /-- The field, for a value inside the object. -/
  field : Option String
  /-- The Go type it could not be stored in. -/
  goType : String

/-- Its `Error()` text. The wrapper's type has no name, so the struct part is empty. -/
def TypeError.message (e : TypeError) : String :=
  match e.field with
  | some f => "json: cannot unmarshal " ++ e.value ++ " into Go struct field ." ++ f ++ " of type " ++
    e.goType
  | none => "json: cannot unmarshal " ++ e.value ++ " into Go value of type " ++ e.goType

/-- An error `json.Unmarshal` returns. -/
inductive DecodeError where
  /-- `checkValid` refused the text. -/
  | syntaxError
  /-- A value did not fit where it was stored. -/
  | type (e : TypeError)

/-- `literalStore` and `d.value` for a field of the given type: `none` leaves the field as it
is, which a `null` does; a value of another type, or a number out of range, is an error that
says what the value was. -/
def decodeAs : GoKind → Value → Except String (Option GoValue)
  | _, .null => .ok none
  | .string, .string s => .ok (some (.str s))
  | .bool, .bool b => .ok (some (.bool b))
  | .uint64, .number lit =>
    match parseUint lit 10 64 with
    | some n => .ok (some (.uint n))
    | none => .error ("number " ++ lit)
  | .int, .number lit | .int64, .number lit =>
    match parseInt lit 10 64 with
    | some i => .ok (some (.int i))
    | none => .error ("number " ++ lit)
  | _, v => .error v.description

/-- One character of `foldName`: an ASCII letter upper-cased, and `ToUpper(ToLower(r))` for the
four characters outside ASCII that it takes to an ASCII letter. Every other character outside
ASCII is kept; Go takes it to another character outside ASCII, which matches no field name
either. -/
def foldRune (c : Char) : Char :=
  if c.toNat < 0x80 then c.toUpper
  else if c.toNat = 0x130 ∨ c.toNat = 0x131 then 'I'
  else if c.toNat = 0x17F then 'S'
  else if c.toNat = 0x212A then 'K'
  else c

/-- `foldName`. -/
def foldName (s : String) : List Char :=
  s.toList.map foldRune

/-- The field a key names: the one of that name, else the first whose name folds to the key's
folded name. -/
def fieldFor (key : String) : Option Field :=
  (fields.find? fun f => f.name == key).orElse fun _ =>
    fields.find? fun f => foldName f.name == foldName key

theorem fieldFor_name (f : Field) : fieldFor f.name = some f := by cases f <;> rfl

/-- The members of an object, in order, into the wrapper. A member whose key names no field is
skipped; one whose value does not fit its field leaves the field, and its error is kept when it
is the first. -/
def decodeMembers : List (String × Value) → Wrapper → Option TypeError → Wrapper × Option TypeError
  | [], w, saved => (w, saved)
  | (key, v) :: members, w, saved =>
    match fieldFor key with
    | none => decodeMembers members w saved
    | some f =>
      match decodeAs f.kind v with
      | .ok none => decodeMembers members w saved
      | .ok (some x) => decodeMembers members (f.set w x) saved
      | .error what => decodeMembers members w (saved <|> some ⟨what, some f.name, f.kind.name⟩)

/-- A field the encoder leaves out holds its zero value, which a zero wrapper holds too. -/
theorem get_of_omitted {w : Wrapper} {f : Field} (h : (f.omitEmpty && (f.get w).isEmpty) = true) :
    f.get ⟨{}, ""⟩ = f.get w := by
  cases f <;> simp_all [Field.omitEmpty, Field.get, GoValue.isEmpty]

/-- Decoding the members the encoder wrote sets each written field to its value; a field it
left out keeps the value it had, which is the one the encoder left out. -/
theorem decodeMembers_encodedMembers {w : Wrapper}
    (hw : ∀ f : Field, decodeAs f.kind (f.get w).toValue = .ok (some (f.get w))) :
    ∀ (fs : List Field) (acc : Wrapper), fs.Nodup →
      (∀ f ∈ fs, (f.omitEmpty && (f.get w).isEmpty) = true → f.get acc = f.get w) →
      decodeMembers (encodedMembers w fs) acc none =
        (fs.foldl (fun acc f => f.set acc (f.get w)) acc, none)
  | [], _, _, _ => rfl
  | f :: fs, acc, hnodup, homit => by
    obtain ⟨hf, hfs⟩ := List.nodup_cons.1 hnodup
    rw [encodedMembers, List.foldl_cons]
    split_ifs with hskip
    · rw [← homit f (List.mem_cons_self _ _) hskip, set_get]
      exact decodeMembers_encodedMembers hw fs acc hfs fun g hg => homit g (List.mem_cons_of_mem _ hg)
    · rw [decodeMembers, fieldFor_name]
      simp only [hw f]
      refine decodeMembers_encodedMembers hw fs _ hfs fun g hg hgskip => ?_
      rw [get_set_of_ne (by rintro rfl; exact hf hg), homit g (List.mem_cons_of_mem _ hg) hgskip]

/-- The wrapper's Go type, as an error about the whole value names it. -/
def wrapperType : String :=
  "struct \x7b *commands.so; Mode string \"json:\\\",omitempty\\\"\" \x7d"

/-- What `json.Unmarshal(data, &tmp)` leaves: the wrapper, whether `tmp` is now nil, and the
error it returns. -/
structure Unmarshaled where
  /-- The wrapper `tmp` pointed at. -/
  wrapper : Wrapper
  /-- Whether `tmp` was set to nil. -/
  isNil : Bool
  /-- The error returned. -/
  error : Option DecodeError

/-- `json.Unmarshal(data, &tmp)`: a syntax error changes nothing; `null` sets `tmp` to nil; an
object is decoded member by member; any other value is a type error. -/
def unmarshal (data : String) (w : Wrapper) : Unmarshaled :=
  match parse data with
  | none => ⟨w, false, some .syntaxError⟩
  | some .null => ⟨w, true, none⟩
  | some (.object members) =>
    ⟨(decodeMembers members w none).1, false, (decodeMembers members w none).2.map .type⟩
  | some v => ⟨w, false, some (.type ⟨v.description, none, wrapperType⟩)⟩

/-- How a Go call ends: it returns, or it panics. -/
inductive GoResult (α : Type) where
  | returns (value : α)
  | panics (message : String)

/-- `s.UnmarshalJSON(data)`: the receiver after it, and the error it returns. An error of
`json.Unmarshal` is returned as it is. Otherwise a non-empty `Mode` is parsed in base 8 and set
when it parses; the `err` of that parse is a new variable, so the function returns nil either
way. After `null`, `tmp` is nil and reading `tmp.Mode` panics. -/
def unmarshalJSON (data : String) (s : StatOutput) : GoResult (StatOutput × Option DecodeError) :=
  let r := unmarshal data ⟨s, ""⟩
  match r.error with
  | some e => .returns (r.wrapper.so, some e)
  | none =>
    if r.isNil then .panics "runtime error: invalid memory address or nil pointer dereference"
    else if r.wrapper.mode ≠ "" then
      match parseUint r.wrapper.mode 8 32 with
      | some mode => .returns ({ r.wrapper.so with mode := UInt32.ofNat mode }, none)
      | none => .returns (r.wrapper.so, none)
    else .returns (r.wrapper.so, none)

/-! ### The round trip -/

/-- Go's `int64`, and `int` on 64-bit platforms, holds the value. -/
def FitsInt64 (i : Int) : Prop := -2 ^ 63 ≤ i ∧ i < 2 ^ 63

/-- A `statOutput` Go can hold: its `Blocks`, `Mtime` and `MtimeNsecs` are 64-bit. -/
def FitsGoTypes (s : StatOutput) : Prop :=
  FitsInt64 s.blocks ∧ FitsInt64 s.mtime ∧ FitsInt64 s.mtimeNsecs

instance : DecidablePred FitsGoTypes := fun _ =>
  inferInstanceAs (Decidable ((_ ∧ _) ∧ (_ ∧ _) ∧ (_ ∧ _)))

/-- Every field's value reads back into the field. -/
theorem decodeAs_get {w : Wrapper} (hw : FitsGoTypes w.so) (f : Field) :
    decodeAs f.kind (f.get w).toValue = .ok (some (f.get w)) := by
  obtain ⟨⟨hb1, hb2⟩, ⟨hm1, hm2⟩, ⟨hn1, hn2⟩⟩ := hw
  cases f <;> simp only [Field.kind, Field.get, GoValue.toValue, decodeAs,
    parseUint_formatUint (UInt64.toNat_lt_size _), parseInt_formatInt hb1 hb2,
    parseInt_formatInt hm1 hm2, parseInt_formatInt hn1 hn2]

/-- Setting every field from a wrapper gives its receiver, but for the shadowed `Mode`. -/
theorem foldl_set (w : Wrapper) :
    fields.foldl (fun acc f => f.set acc (f.get w)) ⟨{}, ""⟩ = ⟨{ w.so with mode := 0 }, w.mode⟩ := by
  simp only [fields, List.foldl, Field.set, Field.get, GoValue.asString, GoValue.asNat,
    GoValue.asInt, GoValue.asBool, uint64_ofNat_toNat]

/-- The codec round-trips: `UnmarshalJSON` of `s.MarshalJSON()` into a zero `statOutput` gives
`s`, field for field, `Mode` included, for every `s` whose 64-bit fields Go can hold. -/
theorem unmarshalJSON_marshalJSON (s : StatOutput) (h : FitsGoTypes s) :
    unmarshalJSON (marshalJSON s) {} = .returns (s, none) := by
  have hdecode : decodeMembers (encodedMembers (marshalOut s) fields) ⟨{}, ""⟩ none =
      (⟨{ s with mode := 0 }, (marshalOut s).mode⟩, none) := by
    rw [decodeMembers_encodedMembers (decodeAs_get h) fields _ (by decide) fun f _ => get_of_omitted,
      foldl_set]
    rfl
  simp only [unmarshalJSON, unmarshal, parse_marshalJSON, hdecode, Option.map_none']
  by_cases hm : s.mode = 0
  · simp only [marshalOut, hm, ne_eq, not_true_eq_false, if_false, Bool.false_eq_true]
    cases s
    simp_all
  · simp only [marshalOut, hm, ne_eq, not_false_eq_true, if_true, formatOctal_ne_empty,
      parseUint_formatOctal 4 (UInt32.toNat_lt_size _)]
    cases s
    simp_all [uint32_ofNat_toNat]

/-- A file of mode `0644`, modified one second before the epoch. -/
def fileStat : StatOutput :=
  { hash := "bafy", size := 3, cumulativeSize := 14, blocks := 1, type := "file", mode := 420,
    mtime := -1 }

theorem fileStat_round_trips :
    FitsGoTypes fileStat ∧ unmarshalJSON (marshalJSON fileStat) {} = .returns (fileStat, none) :=
  ⟨by decide, unmarshalJSON_marshalJSON fileStat (by decide)⟩

/-- The text `null` sets the wrapper pointer to nil, and `tmp.Mode` then panics. -/
example : ∃ msg, unmarshalJSON "null" {} = .panics msg := ⟨_, rfl⟩

end BockIpfs.StatJson
