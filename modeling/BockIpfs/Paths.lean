import Mathlib.Data.List.Basic
import Mathlib.Data.List.Sigma

/-!
# Path strings

Both halves of the repository take paths apart at `/`: the TypeScript file system with
`path.split('/')` and the Go commands with `strings.Split`, `path.Clean`, `path.Split`,
`path.Base` and `strings.TrimRight`. Those library functions are modelled here on the
characters of a string, following their documentation; `/` is one byte in UTF-8 and never
part of another character, so working on characters rather than bytes changes nothing.
`path.Clean` of a rooted path is `/` followed by a stack of kept elements, each non-empty,
free of `/` and neither `.` nor `..`; the lemmas below read that shape back through
`Split`, `Base` and `TrimRight`.
-/

namespace BockIpfs.Paths

/-- `strings.Split(path, "/")`, also JavaScript's `path.split('/')`: the elements between
slashes, empty ones included. -/
def elements (path : String) : List String :=
  (path.toList.splitOn '/').map String.mk

/-- One element of `path.Clean`'s left-to-right scan over a stack of kept elements: skip empty
elements and `.`, let `..` remove the last kept element (or, at the start of a rooted path,
vanish), and keep anything else. -/
def cleanStep (rooted : Bool) (stack : List String) (elem : String) : List String :=
  if elem = "" ∨ elem = "." then stack
  else if elem = ".." then
    if stack ≠ [] ∧ stack.getLast? ≠ some ".." then stack.dropLast
    else if rooted then stack else stack ++ [".."]
  else stack ++ [elem]

/-- The rooted path of a list of elements: `/` for none, `/e1/e2/...` otherwise. -/
def rootedPath (stack : List String) : String :=
  if stack = [] then "/" else String.mk (stack.map fun elem => '/' :: elem.toList).flatten

/-- `path.Clean`: the shortest path with the same meaning, by Go's four rules (one slash for
many, no `.` element, each inner `..` removed with the element before it, `..` dropped at the
start of a rooted path); `.` for a path that cleans to nothing. -/
def clean (path : String) : String :=
  if path = "" then "."
  else
    let rooted := path.toList.head? = some '/'
    let stack := (elements path).foldl (cleanStep rooted) []
    if rooted then rootedPath stack
    else if stack = [] then "." else "/".intercalate stack

/-- `strings.TrimRight(s, "/")`: drop every trailing `/`. -/
def trimRightSlash (s : String) : String :=
  String.mk (s.toList.reverse.dropWhile (· == '/')).reverse

/-- `path.Join(elem...)`: the elements from the first non-empty one, joined by `/` and cleaned;
empty when every element is. -/
def join (elems : List String) : String :=
  match elems.dropWhile (· == "") with
  | [] => ""
  | rest => clean ("/".intercalate rest)

/-- `strings.Trim(s, "/")`: drop every leading and trailing `/`. -/
def trimSlash (s : String) : String :=
  trimRightSlash (String.mk (s.toList.dropWhile (· == '/')))

/-- `path.Split`: everything up to and including the last `/`, and the rest. -/
def split (path : String) : String × String :=
  (String.mk (path.toList.reverse.dropWhile (· != '/')).reverse,
    String.mk (path.toList.reverse.takeWhile (· != '/')).reverse)

/-- `path.Base`: the last element after trailing slashes are removed; `.` for the empty path
and `/` for a path of slashes only. -/
def base (path : String) : String :=
  if path = "" then "."
  else
    let last := (split (trimRightSlash path)).2
    if last = "" then "/" else last

/-- An element `Clean` keeps in a rooted path. -/
def ValidElem (elem : String) : Prop :=
  elem.toList ≠ [] ∧ '/' ∉ elem.toList ∧ elem ≠ "." ∧ elem ≠ ".."

/-- The stack of elements `Clean` keeps from a rooted path. -/
def cleanStack (path : String) : List String :=
  (elements path).foldl (cleanStep true) []

/-! ### Splitting at `/` -/

/-- No piece of a split holds a separator. -/
theorem forall_false_of_mem_splitOnP {q : Char → Bool} :
    ∀ {xs part : List Char}, part ∈ xs.splitOnP q → ∀ a ∈ part, q a = false
  | [], part, h => by simp_all
  | x :: xs, part, h => by
    rw [List.splitOnP_cons] at h
    split at h
    · rcases List.mem_cons.1 h with rfl | h
      · simp
      · exact forall_false_of_mem_splitOnP h
    · obtain ⟨hd, tl, he⟩ := List.exists_cons_of_ne_nil (List.splitOnP_ne_nil q xs)
      rw [he] at h
      rcases List.mem_cons.1 h with rfl | h
      · simp only [List.mem_cons, forall_eq_or_imp]
        exact ⟨by simpa using ‹¬q x = true›,
          forall_false_of_mem_splitOnP (he ▸ List.mem_cons_self _ _)⟩
      · exact forall_false_of_mem_splitOnP (he ▸ List.mem_cons_of_mem _ h)

/-- An element of a path holds no `/`. -/
theorem slash_not_mem_of_mem_elements {path elem : String} (h : elem ∈ elements path) :
    '/' ∉ elem.toList := by
  obtain ⟨cs, hcs, rfl⟩ := List.mem_map.1 h
  exact fun hs => by simpa using forall_false_of_mem_splitOnP hcs _ hs

/-- Splitting `e/e2/.../en` at `/` gives its elements back. -/
theorem splitOn_slash_join : ∀ (e : List Char) (rest : List (List Char)), '/' ∉ e →
    (∀ x ∈ rest, '/' ∉ x) → (e ++ (rest.map ('/' :: ·)).flatten).splitOn '/' = e :: rest
  | e, [], he, _ => by
    simpa using List.splitOnP_eq_single _ e fun c hc hce => he (by simp only [beq_iff_eq] at hce; exact hce ▸ hc)
  | e, x :: rest, he, hrest => by
    rw [List.map_cons, List.flatten_cons, List.cons_append, List.splitOn, List.splitOnP_first _ e
      (fun c hc hce => he (by simp only [beq_iff_eq] at hce; exact hce ▸ hc)) '/' (by simp), ← List.splitOn,
      splitOn_slash_join x rest (hrest x (by simp)) fun y hy => hrest y (by simp [hy])]

theorem toList_rootedPath {stack : List String} (h : stack ≠ []) :
    (rootedPath stack).toList = (stack.map fun e => '/' :: e.toList).flatten := by
  rw [rootedPath, if_neg h]
  rfl

/-- The elements of `/e1/.../en` are the empty one before the first slash, then `e1`..`en`. -/
theorem elements_rootedPath {stack : List String} (h : stack ≠ [])
    (hs : ∀ e ∈ stack, '/' ∉ e.toList) : elements (rootedPath stack) = "" :: stack := by
  obtain ⟨e, rest, rfl⟩ := List.exists_cons_of_ne_nil h
  have hjoin : (rest.map fun x => '/' :: x.toList).flatten =
      ((rest.map String.toList).map ('/' :: ·)).flatten := by
    rw [List.map_map]; rfl
  rw [elements, toList_rootedPath h, List.map_cons, List.flatten_cons, List.cons_append,
    List.splitOn, List.splitOnP_cons, if_pos (by simp), ← List.splitOn, hjoin,
    splitOn_slash_join _ _ (hs e (by simp)) (by simpa using fun x hx => hs x (by simp [hx]))]
  simp [List.map_map, Function.comp_def]

theorem toList_intercalate_go (sep : String) : ∀ (acc : String) (parts : List String),
    (String.intercalate.go acc sep parts).toList =
      acc.toList ++ (parts.map fun part => sep.toList ++ part.toList).flatten
  | acc, [] => by simp [String.intercalate.go]
  | acc, part :: parts => by
    rw [String.intercalate.go, toList_intercalate_go sep (acc ++ sep ++ part) parts]
    simp [String.toList]

/-- JavaScript's `'/' + parts.join('/')` is the rooted path of `parts`. -/
theorem slash_intercalate_eq_rootedPath : ∀ parts : List String,
    "/" ++ "/".intercalate parts = rootedPath parts
  | [] => by decide
  | part :: parts => by
    apply String.ext
    have hgo := toList_intercalate_go "/" part parts
    simp only [String.intercalate, String.toList] at hgo
    simp [rootedPath, String.intercalate, hgo, String.toList]

/-! ### `Clean` of a rooted path -/

theorem toList_ne_nil {s : String} (h : s ≠ "") : s.toList ≠ [] :=
  fun hs => h (String.ext hs)

/-- One step of the scan keeps every kept element valid. -/
theorem validElem_cleanStep {stack : List String} {elem : String}
    (hs : ∀ e ∈ stack, ValidElem e) (he : '/' ∉ elem.toList) :
    ∀ e ∈ cleanStep true stack elem, ValidElem e := by
  intro e he'
  by_cases h1 : elem = "" ∨ elem = "."
  · simp only [cleanStep, h1, if_true] at he'
    exact hs e he'
  by_cases h2 : elem = ".."
  · simp only [cleanStep, h1, h2, if_false, if_true] at he'
    split_ifs at he' <;>
      first | exact hs e he' | exact hs e (List.dropLast_subset _ he')
  · simp only [cleanStep, h1, h2, if_false] at he'
    simp only [not_or] at h1
    rcases List.mem_append.1 he' with he' | he'
    · exact hs e he'
    · rw [List.mem_singleton.1 he']
      exact ⟨toList_ne_nil h1.1, he, h1.2, h2⟩

theorem validElem_foldl : ∀ (elems stack : List String), (∀ x ∈ elems, '/' ∉ x.toList) →
    (∀ e ∈ stack, ValidElem e) → ∀ e ∈ elems.foldl (cleanStep true) stack, ValidElem e
  | [], _, _, hs => hs
  | x :: xs, stack, hx, hs =>
    validElem_foldl xs _ (fun y hy => hx y (by simp [hy]))
      (validElem_cleanStep hs (hx x (by simp)))

/-- Every element `Clean` keeps from a rooted path is valid. -/
theorem validElem_cleanStack (path : String) : ∀ e ∈ cleanStack path, ValidElem e :=
  validElem_foldl _ [] (fun _ hx => slash_not_mem_of_mem_elements hx) (by simp)

/-- `Clean` of a rooted path is the rooted path of its kept elements. -/
theorem clean_of_rooted {path : String} (h : path.toList.head? = some '/') :
    clean path = rootedPath (cleanStack path) := by
  have hne : path ≠ "" := by rintro rfl; simp at h
  have h' : path.data.head? = some '/' := h
  simp [clean, hne, h', cleanStack]

/-! ### Reading a rooted path back -/

theorem toList_rootedPath_concat (init : List String) (last : String) :
    (rootedPath (init ++ [last])).toList =
      (init.map fun e => '/' :: e.toList).flatten ++ '/' :: last.toList := by
  rw [toList_rootedPath (by simp)]
  simp

theorem rootedPath_ne_empty (stack : List String) : rootedPath stack ≠ "" := by
  intro he
  by_cases h : stack = []
  · rw [h] at he
    exact absurd he (by decide)
  · obtain ⟨e, rest, rfl⟩ := List.exists_cons_of_ne_nil h
    have h2 := congrArg String.toList he
    rw [toList_rootedPath h] at h2
    simp at h2

theorem rootedPath_ne_slash {stack : List String} (h : stack ≠ [])
    (hs : ∀ e ∈ stack, ValidElem e) : rootedPath stack ≠ "/" := by
  obtain ⟨e, rest, rfl⟩ := List.exists_cons_of_ne_nil h
  intro he
  have h2 : (rootedPath (e :: rest)).toList = ['/'] := by rw [he]; rfl
  rw [toList_rootedPath h] at h2
  simp only [List.map_cons, List.flatten_cons, List.cons_append, List.cons.injEq,
    List.append_eq_nil] at h2
  exact (hs e (by simp)).1 h2.2.1

theorem trimRightSlash_append_slash (s : String) :
    trimRightSlash (s ++ "/") = trimRightSlash s := by
  simp [trimRightSlash, String.toList]

theorem trimRightSlash_slash : trimRightSlash "/" = "" := by decide

/-- A path whose last character is not `/` has nothing to trim. -/
theorem trimRightSlash_of_getLast? {s : String} (h : s.toList.getLast? ≠ some '/') :
    trimRightSlash s = s := by
  rcases List.eq_nil_or_concat s.toList with hs | ⟨t, c, hs⟩
  · obtain rfl : s = "" := String.ext hs
    rfl
  · rw [List.concat_eq_append] at hs
    rw [hs, List.getLast?_concat] at h
    rw [trimRightSlash, hs, List.reverse_concat', List.dropWhile_cons_of_neg (by simpa using h),
      List.reverse_cons, List.reverse_reverse, ← hs]
    rfl

/-- `Split` of a directory ending in `/` followed by a name without `/`. -/
theorem split_append {dir name : String} (hdir : dir.toList.getLast? = some '/')
    (hname : '/' ∉ name.toList) : split (dir ++ name) = (dir, name) := by
  obtain ⟨t, ht⟩ : ∃ t, dir.toList = t ++ ['/'] := by
    rcases List.eq_nil_or_concat dir.toList with hs | ⟨t, c, hs⟩
    · rw [hs] at hdir
      cases hdir
    · rw [List.concat_eq_append] at hs
      rw [hs, List.getLast?_concat] at hdir
      exact ⟨t, by rw [hs, Option.some.inj hdir]⟩
  have hpos : ∀ a ∈ name.toList.reverse, (a != '/') = true := fun a ha => by
    have : a ≠ '/' := fun he => hname (he ▸ List.mem_reverse.1 ha)
    simpa using this
  have hrev : (dir ++ name).toList.reverse = name.toList.reverse ++ '/' :: t.reverse := by
    simp only [String.toList, String.data_append] at ht ⊢
    simp [ht]
  simp only [split, hrev, List.takeWhile_append_of_pos hpos, List.dropWhile_append_of_pos hpos,
    List.takeWhile_cons, List.dropWhile_cons, bne_self_eq_false, Bool.false_eq_true, if_false,
    List.append_nil, List.reverse_reverse, List.reverse_cons, ← ht]
  rfl

/-- The last character of a non-empty rooted path of valid elements is not `/`. -/
theorem getLast?_rootedPath {stack : List String} (h : stack ≠ [])
    (hs : ∀ e ∈ stack, ValidElem e) : (rootedPath stack).toList.getLast? ≠ some '/' := by
  obtain ⟨init, last, rfl⟩ := (List.eq_nil_or_concat stack).resolve_left h
  rw [List.concat_eq_append] at hs ⊢
  obtain ⟨hne, hslash, -⟩ := hs last (by simp)
  rw [toList_rootedPath_concat, List.getLast?_append, List.getLast?_cons]
  obtain ⟨init', c, hc⟩ := (List.eq_nil_or_concat last.toList).resolve_left hne
  rw [List.concat_eq_append] at hc
  rw [hc, List.getLast?_concat, Option.getD_some]
  simp only [Option.or, ne_eq, Option.some.injEq]
  exact fun he => hslash (by rw [hc, ← he]; simp)

/-- `Split` of a non-empty rooted path of valid elements: everything up to the last `/`, and the
last element. -/
theorem split_rootedPath_concat {init : List String} {last : String}
    (hs : ∀ e ∈ init ++ [last], ValidElem e) :
    split (rootedPath (init ++ [last])) =
      (String.mk ((init.map fun e => '/' :: e.toList).flatten ++ ['/']), last) := by
  have hpath : rootedPath (init ++ [last]) =
      String.mk ((init.map fun e => '/' :: e.toList).flatten ++ ['/']) ++ last :=
    String.ext (by rw [← String.toList, toList_rootedPath_concat]; simp [String.toList])
  rw [hpath, split_append (by simp [String.toList]) (hs last (by simp)).2.1]

/-- `Base` of a non-empty rooted path of valid elements is its last element. -/
theorem base_rootedPath (init : List String) (last : String)
    (hs : ∀ e ∈ init ++ [last], ValidElem e) : base (rootedPath (init ++ [last])) = last := by
  rw [base, if_neg (rootedPath_ne_empty _),
    trimRightSlash_of_getLast? (getLast?_rootedPath (by simp) hs), split_rootedPath_concat hs]
  simp only [if_neg fun h : last = "" => (hs last (by simp)).1 (by rw [h]; rfl)]

/-- `Split` cuts a path in two: the directory and the name make up the path. -/
theorem split_fst_append_snd (path : String) : (split path).1 ++ (split path).2 = path := by
  apply String.ext
  simp only [split, String.data_append]
  rw [← List.reverse_append, List.takeWhile_append_dropWhile, List.reverse_reverse]
  rfl

/-- The name `Split` gives holds no `/`. -/
theorem slash_not_mem_split_snd (path : String) : '/' ∉ (split path).2.toList := by
  intro h
  have h' : '/' ∈ path.toList.reverse.takeWhile (· != '/') := by
    simpa [split, String.toList] using h
  simpa using List.mem_takeWhile_imp h'

theorem exists_reverse_eq_cons {l : List Char} {c : Char} (h : l.getLast? = some c) :
    ∃ t, l.reverse = c :: t := by
  rw [← List.head?_reverse] at h
  cases hl : l.reverse with
  | nil => rw [hl] at h; cases h
  | cons x t => rw [hl] at h; cases h; exact ⟨t, rfl⟩

/-- A path whose last character is not `/` splits with a non-empty name. -/
theorem split_snd_ne_empty {path : String} {c : Char} (h : path.toList.getLast? = some c)
    (hc : c ≠ '/') : (split path).2 ≠ "" := by
  obtain ⟨t, ht⟩ := exists_reverse_eq_cons h
  intro he
  have hnil := congrArg String.toList he
  simp only [split, String.toList] at hnil ht
  rw [ht, List.takeWhile_cons_of_pos (by simpa using hc)] at hnil
  simp at hnil

/-- A path ending in `/` splits into itself and the empty name. -/
theorem split_snd_eq_empty {path : String} (h : path.toList.getLast? = some '/') :
    (split path).2 = "" := by
  obtain ⟨t, ht⟩ := exists_reverse_eq_cons h
  simp only [split, String.toList] at ht ⊢
  rw [ht]
  rfl

theorem split_append_slash (s : String) : (split (s ++ "/")).2 = "" :=
  split_snd_eq_empty (by simp [String.toList])

/-- Nothing `TrimRight` leaves ends in `/`. -/
theorem getLast?_trimRightSlash (s : String) : (trimRightSlash s).toList.getLast? ≠ some '/' := by
  have h := List.head?_dropWhile_not (· == '/') s.data.reverse
  simp only [trimRightSlash, String.toList, List.getLast?_reverse]
  intro hs
  rw [hs] at h
  simp at h

/-- `Base` of a path without a trailing `/` is a name: not empty, and free of `/`. -/
theorem base_ne_empty {path : String} (h : path.toList.getLast? ≠ some '/') :
    base path ≠ "" ∧ '/' ∉ (base path).toList := by
  by_cases hp : path = ""
  · rw [base, if_pos hp]
    exact ⟨by decide, by decide⟩
  · have hl : (split path).2 ≠ "" := by
      obtain ⟨c, hc⟩ := Option.ne_none_iff_exists'.1 fun hn =>
        hp (String.ext (List.getLast?_eq_none_iff.1 hn))
      exact split_snd_ne_empty hc fun hs => h (hs ▸ hc)
    rw [base, if_neg hp, trimRightSlash_of_getLast? h]
    simp only [if_neg hl]
    exact ⟨hl, slash_not_mem_split_snd _⟩

theorem trimSlash_append_slash (s : String) : trimSlash (s ++ "/") = trimSlash s := by
  unfold trimSlash
  have h : (s ++ "/").toList = s.toList ++ ['/'] := by simp [String.toList]
  rw [h, List.dropWhile_append]
  split
  · rename_i hs
    rw [show List.dropWhile (· == '/') ['/'] = [] from rfl, List.isEmpty_iff.1 hs]
  · rw [show String.mk (List.dropWhile (· == '/') s.toList ++ ['/']) =
      String.mk (List.dropWhile (· == '/') s.toList) ++ "/" from rfl, trimRightSlash_append_slash]

end BockIpfs.Paths
