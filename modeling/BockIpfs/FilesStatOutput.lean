import BockIpfs.FilesPath
import BockIpfs.FilesStat
import Mathlib.Data.Nat.Digits

/-!
# `ipfs files stat`: the status of a node and its text

`files stat` checks its format options, checks the path, finds the node and reports its CID,
sizes, number of links, type, mode and modification time (`statNode`, `statProtoNode`); with
`--with-local` it adds what `walkBlock` finds in the local store (see `FilesStat`). The text
encoder fills the format with ten `strings.Replace` calls, one per placeholder, in a fixed
order.

The ten replacements fill each placeholder of a format once, by its field's text, as one pass over the
format would, whenever no field's text contains `<`: every placeholder starts with `<`, has no
other angle bracket before its closing `>`, and so meets no other placeholder at the head of a
text, and a replacement neither finds a placeholder inside a value nor spans two of them.

Go's time formatting and `humanize.Bytes` are libraries outside the repository: the date text
of a modification time and the `Local:` line are passed in.
-/

namespace BockIpfs.FilesStatOutput

open FilesPath FilesStat

/-! ### Format options -/

/-- `defaultStatFormat`. -/
def defaultStatFormat : String :=
  "<hash>\nSize: <size>\nCumulativeSize: <cumulsize>\nChildBlocks: <childs>\nType: <type>\n" ++
    "Mode: <mode> (<mode-octal>)\nMtime: <mtime>"

/-- `errFormat`. -/
def errFormat : String :=
  "format was set by multiple options. Only one format option is allowed"

/-- The format options of a request: `--hash` and `--size`, false when absent, and `--format`,
its default when absent. -/
structure StatOptions where
  /-- `--hash`. -/
  hash : Bool := false
  /-- `--size`. -/
  size : Bool := false
  /-- `--format`. -/
  format : String := defaultStatFormat
  deriving DecidableEq, Repr

/-- `moreThanOne(a, b, c)`. -/
def moreThanOne (a b c : Bool) : Bool :=
  a && b || b && c || a && c

/-- `statGetFormatOptions(req)`. -/
def statGetFormatOptions (o : StatOptions) : Except String String :=
  if moreThanOne o.hash o.size (o.format != defaultStatFormat) then .error errFormat
  else if o.hash then .ok "<hash>"
  else if o.size then .ok "<cumulsize>"
  else .ok o.format

/-! ### `strings.Replace` -/

/-- Go's `strings.Replace(s, old, new, -1)` on the characters of `s`, for a non-empty `old` as
every call here has: from the left, each occurrence of `old` that does not overlap one already
replaced becomes `new`. `skip` counts the characters of the occurrence just replaced that are
still to be passed over. -/
def replaceFrom (old new : List Char) : Nat → List Char → List Char
  | _, [] => []
  | skip + 1, _ :: rest => replaceFrom old new skip rest
  | 0, c :: rest =>
    if old.isPrefixOf (c :: rest) then new ++ replaceFrom old new (old.length - 1) rest
    else c :: replaceFrom old new 0 rest

/-- `strings.Replace` for each placeholder in turn, with its text. -/
def replaceEach (values : List (List Char × List Char)) (s : List Char) : List Char :=
  values.foldl (fun s value => replaceFrom value.1 value.2 0 s) s

example : replaceEach [("<a>".toList, "1".toList), ("<b>".toList, "<a>".toList)]
    "<a><b>".toList = "1<a>".toList := by decide

theorem replaceFrom_skip (old new y : List Char) :
    ∀ z : List Char, replaceFrom old new z.length (z ++ y) = replaceFrom old new 0 y
  | [] => rfl
  | _ :: z => replaceFrom_skip old new y z

/-- An occurrence at the head is replaced, and the rest of the text after it. -/
theorem replaceFrom_occurrence {old : List Char} (new y : List Char) (hold : old ≠ []) :
    replaceFrom old new 0 (old ++ y) = new ++ replaceFrom old new 0 y := by
  obtain _ | ⟨o, os⟩ := old
  · exact absurd rfl hold
  have hocc : (o :: os).isPrefixOf (o :: (os ++ y)) = true :=
    List.isPrefixOf_iff_prefix.2 (List.prefix_append _ y)
  rw [List.cons_append, replaceFrom, if_pos hocc, List.length_cons, Nat.add_sub_cancel,
    replaceFrom_skip]

/-- A text without `<` is passed over by the replacement of anything that starts with `<`. -/
theorem replaceFrom_append_of_not_mem {old : List Char} (new : List Char)
    (hold : old.head? = some '<') :
    ∀ {x : List Char}, '<' ∉ x → ∀ y, replaceFrom old new 0 (x ++ y) = x ++ replaceFrom old new 0 y
  | [], _, _ => rfl
  | c :: x, hx, y => by
    obtain _ | ⟨o, os⟩ := old
    · cases hold
    obtain rfl : o = '<' := Option.some.inj hold
    have hc : c ≠ '<' := fun h => hx (h ▸ List.mem_cons_self _ _)
    have hrest := replaceFrom_append_of_not_mem new hold (fun h => hx (List.mem_cons_of_mem _ h)) y
    rw [List.cons_append, replaceFrom, if_neg (by simp [List.isPrefixOf, Ne.symm hc]), hrest]
    rfl

/-! ### Placeholders and templates -/

/-- A placeholder: `<`, a name with no angle bracket, `>`. -/
def IsPlaceholder (p : List Char) : Prop :=
  ∃ name, p = '<' :: (name ++ ['>']) ∧ '<' ∉ name ∧ '>' ∉ name

theorem IsPlaceholder.head {p : List Char} (hp : IsPlaceholder p) : p.head? = some '<' := by
  obtain ⟨_, rfl, -⟩ := hp
  rfl

theorem IsPlaceholder.ne_nil {p : List Char} (hp : IsPlaceholder p) : p ≠ [] := by
  obtain ⟨_, rfl, -⟩ := hp
  exact List.cons_ne_nil _ _

/-- Two names closed by `>` meet at the head of a text only when they are the same. -/
theorem name_eq_of_prefix_append : ∀ {a b : List Char} (y : List Char), '>' ∉ a → '>' ∉ b →
    b ++ ['>'] <+: a ++ '>' :: y → b = a
  | [], [], _, _, _, _ => rfl
  | [], c :: _, _, _, hb, h => by
    obtain ⟨rfl, -⟩ := List.cons_prefix_cons.1 h
    exact absurd (List.mem_cons_self _ _) hb
  | x :: _, [], _, ha, _, h => by
    obtain ⟨rfl, -⟩ := List.cons_prefix_cons.1 h
    exact absurd (List.mem_cons_self _ _) ha
  | x :: a, c :: b, y, ha, hb, h => by
    obtain ⟨rfl, hrest⟩ := List.cons_prefix_cons.1 h
    rw [name_eq_of_prefix_append y (fun h => ha (List.mem_cons_of_mem _ h))
      (fun h => hb (List.mem_cons_of_mem _ h)) hrest]

/-- A placeholder at the head of a text that starts with a placeholder is that placeholder. -/
theorem IsPlaceholder.eq_of_prefix_append {p q : List Char} (hq : IsPlaceholder q) (hp : IsPlaceholder p)
    (y : List Char) (h : q <+: p ++ y) : q = p := by
  obtain ⟨a, rfl, -, ha⟩ := hp
  obtain ⟨b, rfl, -, hb⟩ := hq
  rw [List.cons_append, List.append_assoc, List.singleton_append] at h
  rw [name_eq_of_prefix_append y ha hb (List.cons_prefix_cons.1 h).2]

/-- The replacement of a placeholder passes over every other placeholder. -/
theorem replaceFrom_placeholder {old p : List Char} (new : List Char) (hold : IsPlaceholder old)
    (hp : IsPlaceholder p) (hne : p ≠ old) (y : List Char) :
    replaceFrom old new 0 (p ++ y) = p ++ replaceFrom old new 0 y := by
  obtain ⟨a, rfl, ha, ha'⟩ := hp
  have hno : ¬ old <+: '<' :: (a ++ ['>']) ++ y := fun h =>
    hne (hold.eq_of_prefix_append ⟨a, rfl, ha, ha'⟩ y h).symm
  have hrest : '<' ∉ a ++ ['>'] := by simp [ha]
  have hstop : ¬ old.isPrefixOf ('<' :: (a ++ ['>'] ++ y)) = true := fun h =>
    hno (List.isPrefixOf_iff_prefix.1 h)
  rw [List.cons_append, replaceFrom, if_neg hstop, replaceFrom_append_of_not_mem new hold.head hrest]
  rfl

/-- A piece of a format: text, or the placeholder of a name. -/
inductive Piece where
  | text (chars : List Char)
  | placeholder (name : List Char)
  deriving DecidableEq, Repr

/-- The characters a piece stands for in the format. -/
def Piece.chars : Piece → List Char
  | .text chars => chars
  | .placeholder name => '<' :: (name ++ ['>'])

/-- Text without `<`, or a name without angle brackets. -/
def Piece.Plain : Piece → Prop
  | .text chars => '<' ∉ chars
  | .placeholder name => '<' ∉ name ∧ '>' ∉ name

instance : DecidablePred Piece.Plain
  | .text chars => inferInstanceAs (Decidable ('<' ∉ chars))
  | .placeholder name => inferInstanceAs (Decidable ('<' ∉ name ∧ '>' ∉ name))

/-- The format that pieces make. -/
def formatOf (pieces : List Piece) : List Char :=
  pieces.flatMap Piece.chars

/-- What one pass over a format makes of a piece: a placeholder with a value becomes its first
value, and everything else stays. -/
def Piece.fill (values : List (List Char × List Char)) : Piece → List Char
  | .text chars => chars
  | .placeholder name => (values.lookup ('<' :: (name ++ ['>']))).getD ('<' :: (name ++ ['>']))

/-- A format filled in one pass. -/
def fillTemplate (values : List (List Char × List Char)) (pieces : List Piece) : List Char :=
  pieces.flatMap (Piece.fill values)

/-- A piece after the placeholder `old` is replaced by `new`. -/
def Piece.replaceOne (old new : List Char) : Piece → Piece
  | .placeholder name => if '<' :: (name ++ ['>']) = old then .text new else .placeholder name
  | piece => piece

theorem Piece.fill_nil : ∀ piece : Piece, piece.fill [] = piece.chars
  | .text _ | .placeholder _ => rfl

theorem Piece.fill_replaceOne (old new : List Char) (values : List (List Char × List Char)) :
    ∀ piece : Piece, (piece.replaceOne old new).fill values = piece.fill ((old, new) :: values)
  | .text _ => rfl
  | .placeholder name => by
    by_cases h : '<' :: (name ++ ['>']) = old
    · simp [Piece.replaceOne, Piece.fill, h]
    · have hbeq : ('<' :: (name ++ ['>']) == old) = false := by simpa using h
      simp only [Piece.replaceOne, Piece.fill, if_neg h, List.lookup_cons, hbeq]

theorem Piece.Plain.replaceOne {old new : List Char} (hnew : '<' ∉ new) :
    ∀ {piece : Piece}, piece.Plain → (piece.replaceOne old new).Plain
  | .text _, h => h
  | .placeholder name, h => by
    by_cases hc : '<' :: (name ++ ['>']) = old
    · rw [Piece.replaceOne, if_pos hc]
      exact hnew
    · rw [Piece.replaceOne, if_neg hc]
      exact h

/-- One replacement of a placeholder turns each of its occurrences among plain pieces into
text and leaves the other pieces. -/
theorem replaceFrom_formatOf {old : List Char} (new : List Char) (hold : IsPlaceholder old) :
    ∀ pieces : List Piece, (∀ piece ∈ pieces, piece.Plain) →
      replaceFrom old new 0 (formatOf pieces) = formatOf (pieces.map (Piece.replaceOne old new))
  | [], _ => rfl
  | piece :: pieces, hplain => by
    have ih := replaceFrom_formatOf new hold pieces fun p hp => hplain p (List.mem_cons_of_mem _ hp)
    have hpiece := hplain piece (List.mem_cons_self _ _)
    simp only [formatOf, List.flatMap_cons, List.map_cons] at ih ⊢
    cases piece with
    | text chars => exact (replaceFrom_append_of_not_mem new hold.head hpiece _).trans (congrArg _ ih)
    | placeholder name =>
      by_cases h : '<' :: (name ++ ['>']) = old
      · subst h
        rw [show (Piece.placeholder name).replaceOne _ new = .text new from if_pos rfl]
        exact (replaceFrom_occurrence _ _ hold.ne_nil).trans (congrArg _ ih)
      · rw [show (Piece.placeholder name).replaceOne old new = .placeholder name from if_neg h]
        exact (replaceFrom_placeholder new hold ⟨name, rfl, hpiece⟩ h _).trans (congrArg _ ih)

/-- The replacements in turn fill plain pieces as one pass over them does, when every key is a
placeholder and no value holds `<`: no replacement meets a value or a placeholder other than its
own. -/
theorem replaceEach_formatOf : ∀ (values : List (List Char × List Char)) (pieces : List Piece),
    (∀ v ∈ values, IsPlaceholder v.1 ∧ '<' ∉ v.2) → (∀ piece ∈ pieces, piece.Plain) →
      replaceEach values (formatOf pieces) = fillTemplate values pieces
  | [], pieces, _, _ => by
    simp only [replaceEach, List.foldl_nil, fillTemplate, formatOf, funext Piece.fill_nil]
  | (old, new) :: values, pieces, hvalues, hplain => by
    obtain ⟨hold, hnew⟩ := hvalues _ (List.mem_cons_self _ _)
    have hplain' : ∀ piece ∈ pieces.map (Piece.replaceOne old new), piece.Plain := by
      simp only [List.mem_map]
      rintro _ ⟨piece, hp, rfl⟩
      exact (hplain piece hp).replaceOne hnew
    have ih := replaceEach_formatOf values _
      (fun v hv => hvalues v (List.mem_cons_of_mem _ hv)) hplain'
    show replaceEach values (replaceFrom old new 0 (formatOf pieces)) = _
    rw [replaceFrom_formatOf new hold pieces hplain, ih]
    simp only [fillTemplate, List.flatMap_map, Function.comp_def, Piece.fill_replaceOne]

/-! ### The status record and its text -/

/-- `statOutput`, with Go's zero values as defaults. -/
structure StatOutput where
  /-- `Hash`: the CID as the request's encoder writes it. -/
  hash : String := ""
  /-- `Size`. -/
  size : UInt64 := 0
  /-- `CumulativeSize`. -/
  cumulativeSize : UInt64 := 0
  /-- `Blocks`: the number of links. -/
  blocks : Int := 0
  /-- `Type`. -/
  type : String := ""
  /-- `WithLocality`. -/
  withLocality : Bool := false
  /-- `Local`. -/
  isLocal : Bool := false
  /-- `SizeLocal`. -/
  sizeLocal : UInt64 := 0
  /-- `Mode`, an `os.FileMode`. -/
  mode : UInt32 := 0
  /-- `Mtime`, in seconds since the Unix epoch. -/
  mtime : Int := 0
  /-- `MtimeNsecs`. -/
  mtimeNsecs : Int := 0
  deriving DecidableEq, Repr

/-- `filesStatUnspecified`. -/
def filesStatUnspecified : String := "not set"

/-- `os.ModeSymlink`, bit 27 of an `os.FileMode`. -/
def modeSymlink : UInt32 := 0x8000000

/-- Go's `FileMode.String()`: the letter of each type bit set, from bit 31 down, or `-` when
none is; then `rwxrwxrwx` with `-` for each permission bit not set. -/
def fileModeString (m : UInt32) : List Char :=
  let kinds := "dalTLDpSugct?".toList.enum.filterMap fun (i, c) =>
    if m.toNat.testBit (31 - i) then some c else none
  (if kinds = [] then ['-'] else kinds) ++
    "rwxrwxrwx".toList.enum.map fun (i, c) => if m.toNat.testBit (8 - i) then c else '-'

/-- The encoder's `mode`: `strings.ToLower` of the mode's `String()`, or `not set` for a zero
mode. -/
def modeText (out : StatOutput) : String :=
  if out.mode = 0 then filesStatUnspecified
  else String.mk ((fileModeString out.mode).map Char.toLower)

/-- The encoder's `modeo`: `0` and the permission bits `Mode & 0x1FF` in octal. -/
def modeOctalText (out : StatOutput) : String :=
  if out.mode = 0 then filesStatUnspecified
  else "0" ++ String.mk (Nat.toDigits 8 (out.mode.toNat % 0x200))

/-- The help text of `files chmod`: mode `0644` is shown as `-rw-r--r-- (0644)`. -/
example : modeText { mode := 0o644 } = "-rw-r--r--" ∧ modeOctalText { mode := 0o644 } = "0644" := by
  decide

/-- The encoder's `mtime`: `formatTime` is `time.Unix(sec, nsec).UTC().Format(...)`, used only
for a positive `Mtime`. -/
def mtimeText (formatTime : Int → Int → String) (out : StatOutput) : String :=
  if 0 < out.mtime then formatTime out.mtime out.mtimeNsecs else filesStatUnspecified

/-- The encoder's `mtimes`. -/
def mtimeSecsText (out : StatOutput) : String :=
  if 0 < out.mtime then toString out.mtime else filesStatUnspecified

/-- The encoder's `mtimens`. -/
def mtimeNsecsText (out : StatOutput) : String :=
  if 0 < out.mtime then toString out.mtimeNsecs else filesStatUnspecified

/-- Each placeholder with its text, in the order the encoder replaces them. -/
def statValues (formatTime : Int → Int → String) (out : StatOutput) :
    List (List Char × List Char) :=
  [("<hash>", out.hash), ("<size>", toString out.size.toNat),
    ("<cumulsize>", toString out.cumulativeSize.toNat), ("<childs>", toString out.blocks),
    ("<type>", out.type), ("<mode>", modeText out), ("<mode-octal>", modeOctalText out),
    ("<mtime>", mtimeText formatTime out), ("<mtime-secs>", mtimeSecsText out),
    ("<mtime-nsecs>", mtimeNsecsText out)].map fun (old, new) => (old.toList, new.toList)

/-- The text encoder of `files stat`: the format `statGetFormatOptions` gives (empty on its
error) with each placeholder replaced, a line end, and with locality the `Local:` line that
`localLine` writes. -/
def statText (formatTime : Int → Int → String) (localLine : StatOutput → String) (o : StatOptions)
    (out : StatOutput) : String :=
  let s := match statGetFormatOptions o with
    | .ok s => s
    | .error _ => ""
  String.mk (replaceEach (statValues formatTime out) s.toList) ++ "\n" ++
    (if out.withLocality then localLine out else "")

/-! ### What the encoder prints -/

theorem digitChar_ne : ∀ d < 16, Nat.digitChar d ≠ '<' := by
  decide

/-- The digits of a number in a base up to 16 hold no `<`. -/
theorem lt_not_mem_toDigitsCore {base : Nat} (hpos : 0 < base) (hbase : base ≤ 16) :
    ∀ (fuel n : Nat) (ds : List Char), '<' ∉ ds → '<' ∉ Nat.toDigitsCore base fuel n ds
  | 0, _, _, h => h
  | fuel + 1, n, ds, h => by
    have hd : '<' ∉ Nat.digitChar (n % base) :: ds := fun hm =>
      (List.mem_cons.1 hm).elim
        (fun e => digitChar_ne _ (by have := Nat.mod_lt n hpos; omega) e.symm) h
    unfold Nat.toDigitsCore
    dsimp only
    split_ifs
    · exact hd
    · exact lt_not_mem_toDigitsCore hpos hbase fuel _ _ hd

theorem lt_not_mem_toDigits {base : Nat} (hpos : 0 < base) (hbase : base ≤ 16) (n : Nat) :
    '<' ∉ Nat.toDigits base n :=
  lt_not_mem_toDigitsCore hpos hbase _ n [] (List.not_mem_nil _)

theorem lt_not_mem_natToString (n : Nat) : '<' ∉ (toString n).toList :=
  lt_not_mem_toDigits (by decide) (by decide) n

theorem lt_not_mem_intToString : ∀ i : Int, '<' ∉ (toString i).toList
  | .ofNat n => lt_not_mem_natToString n
  | .negSucc n => fun h => (List.mem_cons.1 h).elim (by decide) (lt_not_mem_natToString (n + 1))

/-- `FileMode.String()` writes only its type letters, `-` and `rwx`, none of which is `<` in
lower case. -/
theorem toLower_ne_of_mem_fileModeString {m : UInt32} {c : Char} (h : c ∈ fileModeString m) :
    c.toLower ≠ '<' := by
  have hkinds : ∀ c ∈ "dalTLDpSugct?".toList, c.toLower ≠ '<' := by decide
  have hrwx : ∀ c ∈ "rwxrwxrwx".toList, c.toLower ≠ '<' := by decide
  simp only [fileModeString, List.mem_append, List.mem_map] at h
  rcases h with h | ⟨⟨i, c0⟩, hmem, rfl⟩
  · split_ifs at h
    · rw [List.mem_singleton.1 h]
      decide
    · obtain ⟨⟨i, c0⟩, hmem, hsome⟩ := List.mem_filterMap.1 h
      split_ifs at hsome
      cases hsome
      exact hkinds _ (List.snd_mem_of_mem_enum hmem)
  · dsimp only
    split_ifs
    · exact hrwx c0 (List.snd_mem_of_mem_enum hmem)
    · decide

theorem lt_not_mem_modeText (out : StatOutput) : '<' ∉ (modeText out).toList := by
  unfold modeText
  split_ifs
  · decide
  · intro h
    obtain ⟨c, hc, hlower⟩ := List.mem_map.1 h
    exact toLower_ne_of_mem_fileModeString hc hlower

theorem lt_not_mem_modeOctalText (out : StatOutput) : '<' ∉ (modeOctalText out).toList := by
  unfold modeOctalText
  split_ifs
  · decide
  · exact fun h => (List.mem_cons.1 h).elim (by decide) (lt_not_mem_toDigits (by decide) (by decide) _)

/-- Every key the encoder replaces is a placeholder, and no text it puts in holds `<` when the
CID, the type and the date text hold none. -/
theorem statValues_plain (formatTime : Int → Int → String) (out : StatOutput)
    (hhash : '<' ∉ out.hash.toList) (htype : '<' ∉ out.type.toList)
    (htime : '<' ∉ (formatTime out.mtime out.mtimeNsecs).toList) :
    ∀ v ∈ statValues formatTime out, IsPlaceholder v.1 ∧ '<' ∉ v.2 := by
  have hunset : '<' ∉ filesStatUnspecified.toList := by decide
  simp only [statValues, List.map_cons, List.map_nil, List.mem_cons, List.not_mem_nil, or_false]
  rintro v (rfl | rfl | rfl | rfl | rfl | rfl | rfl | rfl | rfl | rfl)
  · exact ⟨⟨"hash".toList, rfl, by decide⟩, hhash⟩
  · exact ⟨⟨"size".toList, rfl, by decide⟩, lt_not_mem_natToString _⟩
  · exact ⟨⟨"cumulsize".toList, rfl, by decide⟩, lt_not_mem_natToString _⟩
  · exact ⟨⟨"childs".toList, rfl, by decide⟩, lt_not_mem_intToString _⟩
  · exact ⟨⟨"type".toList, rfl, by decide⟩, htype⟩
  · exact ⟨⟨"mode".toList, rfl, by decide⟩, lt_not_mem_modeText out⟩
  · exact ⟨⟨"mode-octal".toList, rfl, by decide⟩, lt_not_mem_modeOctalText out⟩
  · refine ⟨⟨"mtime".toList, rfl, by decide⟩, ?_⟩
    unfold mtimeText
    split_ifs
    exacts [htime, hunset]
  · refine ⟨⟨"mtime-secs".toList, rfl, by decide⟩, ?_⟩
    unfold mtimeSecsText
    split_ifs
    exacts [lt_not_mem_intToString _, hunset]
  · refine ⟨⟨"mtime-nsecs".toList, rfl, by decide⟩, ?_⟩
    unfold mtimeNsecsText
    split_ifs
    exacts [lt_not_mem_intToString _, hunset]

/-- The text `files stat` prints for a format made of text without `<` and placeholders: each
placeholder is filled once, by the text of its field (an unknown one stays as it is), as one
pass over the format would, when the CID, the type and the date text hold no `<`; then a line
end and, with locality, the `Local:` line. -/
theorem statText_fillTemplate (formatTime : Int → Int → String)
    (localLine : StatOutput → String) (o : StatOptions) (out : StatOutput) (pieces : List Piece)
    (hplain : ∀ piece ∈ pieces, piece.Plain)
    (hformat : statGetFormatOptions o = .ok (String.mk (formatOf pieces)))
    (hhash : '<' ∉ out.hash.toList) (htype : '<' ∉ out.type.toList)
    (htime : '<' ∉ (formatTime out.mtime out.mtimeNsecs).toList) :
    statText formatTime localLine o out =
      String.mk (fillTemplate (statValues formatTime out) pieces) ++ "\n" ++
        (if out.withLocality then localLine out else "") := by
  rw [statText, hformat]
  show String.mk (replaceEach (statValues formatTime out) (formatOf pieces)) ++ "\n" ++ _ = _
  rw [replaceEach_formatOf _ _ (statValues_plain formatTime out hhash htype htime) hplain]

/-- A format of the user's with a placeholder the encoder does not know: `<type>` and `<hash>`
are filled and `<foo>` stays. -/
theorem user_format_filled :
    (∀ piece ∈ [Piece.placeholder "type".toList, .text ": ".toList, .placeholder "hash".toList,
        .text " ".toList, .placeholder "foo".toList], piece.Plain) ∧
      statGetFormatOptions { format := "<type>: <hash> <foo>" } =
        .ok (String.mk (formatOf [.placeholder "type".toList, .text ": ".toList,
          .placeholder "hash".toList, .text " ".toList, .placeholder "foo".toList])) ∧
      '<' ∉ "bafy".toList ∧ '<' ∉ "file".toList ∧ '<' ∉ "".toList ∧
      statText (fun _ _ => "") (fun _ => "") { format := "<type>: <hash> <foo>" }
          { hash := "bafy", type := "file" } = "file: bafy <foo>\n" :=
  ⟨by decide, rfl, by decide, by decide, by decide,
    (statText_fillTemplate (fun _ _ => "") (fun _ => "") { format := "<type>: <hash> <foo>" }
      { hash := "bafy", type := "file" } [.placeholder "type".toList, .text ": ".toList,
        .placeholder "hash".toList, .text " ".toList, .placeholder "foo".toList]
      (by decide) rfl (by decide) (by decide) (by decide)).trans (by decide)⟩

/-- `defaultStatFormat` as pieces. -/
def defaultPieces : List Piece :=
  [.placeholder "hash".toList, .text "\nSize: ".toList, .placeholder "size".toList,
    .text "\nCumulativeSize: ".toList, .placeholder "cumulsize".toList,
    .text "\nChildBlocks: ".toList, .placeholder "childs".toList, .text "\nType: ".toList,
    .placeholder "type".toList, .text "\nMode: ".toList, .placeholder "mode".toList,
    .text " (".toList, .placeholder "mode-octal".toList, .text ")\nMtime: ".toList,
    .placeholder "mtime".toList]

/-- With no format option `files stat` prints seven lines: the CID, the size, the cumulative
size, the number of links, the type, the mode with its permission bits in octal (`not set` for
a zero mode), and the modification time, `not set` unless it is after the epoch. -/
theorem statText_default (formatTime : Int → Int → String) (localLine : StatOutput → String)
    (out : StatOutput) (hhash : '<' ∉ out.hash.toList) (htype : '<' ∉ out.type.toList)
    (htime : '<' ∉ (formatTime out.mtime out.mtimeNsecs).toList) :
    statText formatTime localLine {} out =
      out.hash ++ "\nSize: " ++ toString out.size.toNat ++ "\nCumulativeSize: " ++
        toString out.cumulativeSize.toNat ++ "\nChildBlocks: " ++ toString out.blocks ++
        "\nType: " ++ out.type ++ "\nMode: " ++ modeText out ++ " (" ++ modeOctalText out ++
        ")\nMtime: " ++ mtimeText formatTime out ++ "\n" ++
        (if out.withLocality then localLine out else "") := by
  have hformat : statGetFormatOptions {} = .ok (String.mk (formatOf defaultPieces)) := rfl
  have hfill := replaceEach_formatOf _ _ (statValues_plain formatTime out hhash htype htime)
    (by decide : ∀ piece ∈ defaultPieces, piece.Plain)
  rw [statText, hformat]
  show String.mk (replaceEach (statValues formatTime out) (formatOf defaultPieces)) ++ "\n" ++ _ = _
  rw [hfill, String.ext_iff]
  simp only [String.data_append, List.append_assoc, fillTemplate, defaultPieces, List.flatMap_cons,
    List.flatMap_nil, List.append_nil]
  rfl

/-- A file with mode `0644` and a modification time before the epoch: the mode is shown as
`chmod`'s help text has it, and the time as `not set`. -/
theorem stat_text_before_epoch :
    '<' ∉ "bafy".toList ∧ '<' ∉ "file".toList ∧ '<' ∉ "".toList ∧
      statText (fun _ _ => "") (fun _ => "") {}
          { hash := "bafy", size := 2, cumulativeSize := 10, type := "file", mode := 0o644,
            mtime := -1 } =
        "bafy\nSize: 2\nCumulativeSize: 10\nChildBlocks: 0\nType: file\n" ++
          "Mode: -rw-r--r-- (0644)\nMtime: not set\n" :=
  ⟨by decide, by decide, by decide,
    (statText_default (fun _ _ => "") (fun _ => "")
      { hash := "bafy", size := 2, cumulativeSize := 10, type := "file", mode := 0o644,
        mtime := -1 } (by decide) (by decide) (by decide)).trans (by decide)⟩

/-! ### The status of a node -/

/-- The `Data.DataType` codes of UnixFS: `ft.TRaw`. -/
def tRaw : Int := 0
/-- `ft.TDirectory`. -/
def tDirectory : Int := 1
/-- `ft.TFile`. -/
def tFile : Int := 2
/-- `ft.TMetadata`. -/
def tMetadata : Int := 3
/-- `ft.TSymlink`. -/
def tSymlink : Int := 4
/-- `ft.THAMTShard`. -/
def tHAMTShard : Int := 5

/-- A `time.Time` as `statProtoNode` reads it. -/
structure GoTime where
  /-- `t.Unix()`. -/
  unix : Int
  /-- `t.Nanosecond()`. -/
  nanosecond : Nat
  nanosecond_lt : nanosecond < 1000000000

/-- `t.IsZero()`: the instant of `time.Time{}`, January 1 of year 1, 00:00:00 UTC. -/
def GoTime.isZero (t : GoTime) : Bool :=
  t.unix = -62135596800 && t.nanosecond = 0

/-- What `ft.FSNodeFromBytes(n.Data())` decodes from a dag-pb node's data. -/
structure FSNode where
  /-- `d.Type()`, a `Data.DataType` code. -/
  dataType : Int
  /-- `d.FileSize()`. -/
  fileSize : UInt64
  /-- `d.Mode()`, zero when no mode is stored. -/
  mode : UInt32
  /-- `d.ModTime()`, the zero time when none is stored. -/
  modTime : GoTime

/-- The `switch d.Type()` of `statProtoNode`: `directory` for a directory or a HAMT shard,
`file` for the four other types, none for a code UnixFS does not define. -/
def typeName (dataType : Int) : Option String :=
  if dataType = tDirectory ∨ dataType = tHAMTShard then some "directory"
  else if dataType = tFile ∨ dataType = tSymlink ∨ dataType = tMetadata ∨ dataType = tRaw then
    some "file"
  else none

/-- `statProtoNode(n, enc, cid, cumulsize)`, with `data` what `ft.FSNodeFromBytes(n.Data())`
gives and `links` the number of `n.Links()`. An unknown type is printed as its number, as
protobuf prints an enum value without a name. -/
def statProtoNode (data : Except String FSNode) (hash : String) (links : Nat) (cumulsize : UInt64) :
    Except String StatOutput :=
  match data with
  | .error e => .error e
  | .ok d =>
    match typeName d.dataType with
    | none => .error ("unrecognized node type: " ++ toString d.dataType)
    | some type =>
      .ok { hash, blocks := links, size := d.fileSize, cumulativeSize := cumulsize, type,
            mode := if d.mode ≠ 0 then d.mode
              else if d.dataType = tSymlink then modeSymlink ||| 0x1FF else 0,
            mtime := if d.modTime.isZero then 0 else d.modTime.unix,
            mtimeNsecs := if d.modTime.isZero ∨ d.modTime.nanosecond = 0 then 0
              else d.modTime.nanosecond }

/-- A symlink with no stored mode is shown as `lrwxrwxrwx (0777)`. -/
example : (statProtoNode (.ok ⟨tSymlink, 4, 0, ⟨0, 0, by decide⟩⟩) "cid" 0 12).map
    (fun out => (modeText out, modeOctalText out)) = .ok ("lrwxrwxrwx", "0777") :=
  rfl

/-- A node that `getNodeFromPath` gives `files stat`: its CID as the request's encoder writes it,
and a dag-pb or raw block with what its data decodes to (read only for dag-pb), or a node of
another codec with what its `Size()` gives. `block` is what `walkBlock` reads of it: its raw
length and its links. -/
inductive IpldNode where
  | unixfs (cid : String) (block : Block) (data : Except String FSNode)
  | other (cid : String) (block : Block) (size : Except String UInt64)

/-- `nd.Cid()`, encoded. -/
def IpldNode.cid : IpldNode → String
  | .unixfs cid _ _ | .other cid _ _ => cid

/-- The raw length and links of a node. -/
def IpldNode.block : IpldNode → Block
  | .unixfs _ block _ | .other _ block _ => block

/-- `statNode(nd, enc)`: `Size()` first, then the type switch: a dag-pb node is read by
`statProtoNode`, a raw node is a file with no links, and any other node is refused. -/
def statNode : IpldNode → Except String StatOutput
  | .other _ _ (.error e) => .error e
  | .other _ _ (.ok _) => .error "not unixfs node (proto or raw)"
  | .unixfs cid (.proto length links) data =>
    statProtoNode data cid links.length (Block.proto length links).size
  | .unixfs cid (.raw length) _ =>
    .ok { hash := cid, blocks := 0, size := (Block.raw length).size,
          cumulativeSize := (Block.raw length).size, type := "file" }

/-- `files stat`'s `Run`: the status it emits, with `getNodeFromPath` for the lookup of the
checked path and `get` for the offline DAG service of `--with-local`; `none` only when the
walk's fuel runs out. -/
def filesStat (getNodeFromPath : String → Except String IpldNode) (get : Nat → GetResult)
    (fuel : Nat) (o : StatOptions) (withLocal : Bool) (arg : String) :
    Option (Except String StatOutput) :=
  match statGetFormatOptions o, checkPath arg with
  | .error err, _ => some (.error ("invalid parameters: " ++ err))
  | .ok _, .error e => some (.error e)
  | .ok _, .ok path =>
    match getNodeFromPath path with
    | .error e => some (.error e)
    | .ok nd =>
      match statNode nd with
      | .error e => some (.error e)
      | .ok out =>
        if withLocal then
          (walkBlock get fuel nd.block).map fun r =>
            match r.err with
            | some e => .error e
            | none => .ok { out with withLocality := true, isLocal := r.isLocal,
                                     sizeLocal := r.sizeLocal }
        else some (.ok out)

/-- `files stat --with-local` on a node of an acyclic block map whose links record the sizes of
the blocks they name, with a local store that fails only by missing blocks: with more fuel than
the node's rank it emits what `statNode` reports with locality added, the flag saying whether
no link on the paths through local blocks names a missing one, and the byte count the sum of
the raw lengths over those paths, mod `2^64`. -/
theorem filesStat_withLocal {G : BlockMap} (S : LocalStore G) (hnf : NoFailure S.get)
    {getNodeFromPath : String → Except String IpldNode} {o : StatOptions}
    {arg path format : String} {nd : IpldNode} {out : StatOutput} {c fuel : Nat}
    (hformat : statGetFormatOptions o = .ok format) (hpath : checkPath arg = .ok path)
    (hnd : getNodeFromPath path = .ok nd) (hstat : statNode nd = .ok out)
    (hblock : G.block c = some nd.block) (hfuel : G.rank c < fuel) :
    ∃ sizeLocal : UInt64,
      filesStat getNodeFromPath S.get fuel o true arg =
        some (.ok { out with withLocality := true, isLocal := fullyLocal S.get fuel nd.block,
                             sizeLocal }) ∧
      sizeLocal.toNat = localSize S.get fuel nd.block % 2 ^ 64 := by
  obtain ⟨r, hr, hnoerr, hspec⟩ := walkBlock_spec S fuel c nd.block hblock hfuel
  have herr := hnoerr hnf
  obtain ⟨hsize, hlocal⟩ := hspec herr
  refine ⟨r.sizeLocal, ?_, hsize⟩
  simp only [filesStat, hformat, hpath, hnd, hstat, if_true, hr, Option.map_some', herr, hlocal]

/-- A dag-pb directory of 100 bytes with one link to a raw leaf of 5 bytes. -/
def dirWithLeaf : Block := .proto 100 [⟨1, 5⟩]

/-- The map of that directory, CID 0, and its leaf, CID 1. -/
def dirWithLeafMap : BlockMap where
  block c := if c = 0 then some dirWithLeaf else if c = 1 then some (.raw 5) else none
  rank c := 1 - c
  link_ok c nd h link hlink := by
    dsimp only at h ⊢
    split_ifs at h with h0 h1 <;> cases h
    · obtain rfl : link = ⟨1, 5⟩ := List.mem_singleton.1 hlink
      exact ⟨_, rfl, by simp [h0], rfl⟩
    · cases hlink

/-- A local store that holds the directory but not its leaf. -/
def dirOnlyStore : LocalStore dirWithLeafMap where
  get c := if c = 0 then .found dirWithLeaf else .notFound
  found_sub c block h := by
    dsimp only at h
    split_ifs at h with h0
    cases h
    simp [dirWithLeafMap, h0]

/-- The directory as `files stat` finds it: no mode and no modification time stored. -/
def dirNode : IpldNode :=
  .unixfs "bafy" dirWithLeaf (.ok ⟨tDirectory, 0, 0, ⟨0, 0, by decide⟩⟩)

/-- `files stat --with-local` of the directory when its leaf is not local: the directory is not
local, and its 100 bytes are. -/
theorem stat_with_local_missing_leaf :
    NoFailure dirOnlyStore.get ∧ statGetFormatOptions {} = .ok defaultStatFormat ∧
      checkPath "/d" = .ok "/d" ∧
      (fun _ => .ok dirNode : String → Except String IpldNode) "/d" = .ok dirNode ∧
      statNode dirNode =
        .ok { hash := "bafy", cumulativeSize := 105, blocks := 1, type := "directory" } ∧
      dirWithLeafMap.block 0 = some dirNode.block ∧ dirWithLeafMap.rank 0 < 2 ∧
      filesStat (fun _ => .ok dirNode) dirOnlyStore.get 2 {} true "/d" =
        some (.ok { hash := "bafy", cumulativeSize := 105, blocks := 1, type := "directory",
                    withLocality := true, isLocal := false, sizeLocal := 100 }) := by
  have hnf : NoFailure dirOnlyStore.get := fun c err h => by
    simp only [dirOnlyStore] at h
    split_ifs at h
  obtain ⟨sizeLocal, hrun, hsize⟩ := @filesStat_withLocal dirWithLeafMap dirOnlyStore hnf
    (fun _ => .ok dirNode) {} "/d" "/d" defaultStatFormat dirNode
    { hash := "bafy", cumulativeSize := 105, blocks := 1, type := "directory" } 0 2
    rfl rfl rfl rfl rfl (by decide)
  have h100 : sizeLocal = 100 := UInt64.toNat.inj (by rw [hsize]; decide)
  refine ⟨hnf, rfl, rfl, rfl, rfl, rfl, by decide, ?_⟩
  rw [hrun, h100]
  rfl

end BockIpfs.FilesStatOutput
