import Mathlib.Algebra.Order.BigOperators.Group.List
import Mathlib.Algebra.Order.Group.Nat
import Mathlib.Algebra.Order.Ring.Nat

/-!
# `ipfs files stat --with-local`

`walkBlock` walks the DAG below a node through an offline DAG service: it starts from the
node's raw length, skips a link whose block is not in the local store (and then reports the
node as not local), stops at any other error, and adds up what the recursive calls return in
`uint64`. `Size()` adds a node's raw length to the sizes its links record, also in `uint64`.

When every link records the `Size()` of the block it names, both sums count a block once per
link path that reaches it, so they are the path sums of the raw lengths reduced mod `2^64`:
`walkBlock` returns the sum over the paths through local blocks, and `Size()` the sum over all
paths. The walk's flag is exactly "no link on those paths names a missing block", and a local
walk returns `Size()`. The bounds `sizeLocal = Σ` and `sizeLocal ≤ Size()` need the cumulative
size to stay below `2^64`: a DAG of 66 small blocks whose shared sub-DAG doubles at each level
already passes it, and there the walk's sum wraps, and a walk that misses the big branch
reports more local bytes than `Size()`.
-/

namespace BockIpfs.FilesStat

/-- A link of a block: the CID of the block it names, as a key, and the size it records. -/
structure Link where
  /-- `link.Cid`. -/
  cid : Nat
  /-- `link.Size`, the cumulative size recorded when the link was made. -/
  size : UInt64
  deriving DecidableEq, Repr

/-- A block as `ipld.Node` shows it: a raw leaf, or a dag-pb node with its links. Only the
lengths of their bytes matter here. -/
inductive Block where
  /-- A `RawNode` with its number of bytes. -/
  | raw (length : Nat)
  /-- A `ProtoNode` with the length of its protobuf encoding and its links. -/
  | proto (length : Nat) (links : List Link)
  deriving DecidableEq, Repr

/-- `len(nd.RawData())`. -/
def Block.rawLength : Block → Nat
  | .raw length => length
  | .proto length _ => length

/-- `nd.Links()`. -/
def Block.links : Block → List Link
  | .raw _ => []
  | .proto _ links => links

/-- `nd.Size()`: the raw length, plus for a dag-pb node every link's recorded size, added in
`uint64`. -/
def Block.size : Block → UInt64
  | .raw length => UInt64.ofNat length
  | .proto length links => links.foldl (fun s link => s + link.size) (UInt64.ofNat length)

/-- What `dagserv.Get(ctx, cid)` gives: the block, an error `ipld.IsNotFound` accepts, or
another error. -/
inductive GetResult where
  | found (block : Block)
  | notFound
  | failed (err : String)
  deriving DecidableEq, Repr

/-- Whether the store gave the block. -/
def GetResult.isFound : GetResult → Bool
  | .found _ => true
  | _ => false

/-- What `walkBlock` returns: `local`, `sizeLocal` and the error. -/
structure WalkResult where
  /-- `local`: no link below the node named a block missing from the store. -/
  isLocal : Bool
  /-- `sizeLocal`: the bytes of the blocks found. -/
  sizeLocal : UInt64
  /-- The error, if the walk stopped at one. -/
  err : Option String
  deriving DecidableEq, Repr

/-- The loop of `walkBlock` over the node's links from the given one on, with `walk` for the
recursive call on a child. -/
def walkLinks (get : Nat → GetResult) (walk : Block → Option WalkResult) :
    List Link → Bool → UInt64 → Option WalkResult
  | [], isLocal, sizeLocal => some ⟨isLocal, sizeLocal, none⟩
  | link :: links, isLocal, sizeLocal =>
    match get link.cid with
    | .notFound => walkLinks get walk links false sizeLocal
    | .failed err => some ⟨isLocal, sizeLocal, some err⟩
    | .found child =>
      match walk child with
      | none => none
      | some ⟨_, _, some err⟩ => some ⟨isLocal, sizeLocal, some err⟩
      | some ⟨childLocal, childLocalSize, none⟩ =>
        walkLinks get walk links (isLocal && childLocal) (sizeLocal + childLocalSize)

/-- `walkBlock(ctx, dagserv, nd)`, with `get` for `dagserv.Get`. The recursion follows links, so
`fuel` bounds its depth; `none` means the fuel ran out, which no acyclic block map gives with
more fuel than the node's rank (`walkBlock_spec`). -/
def walkBlock (get : Nat → GetResult) : Nat → Block → Option WalkResult
  | 0, _ => none
  | fuel + 1, nd => walkLinks get (walkBlock get fuel) nd.links true (UInt64.ofNat nd.rawLength)

/-! ### Link paths -/

/-- The block at the end of each link path from `nd` that passes through blocks `get` finds,
the empty path first: a block shared by several paths is listed once per path. -/
def reached (get : Nat → GetResult) : Nat → Block → List Block
  | 0, _ => []
  | fuel + 1, nd => nd :: nd.links.flatMap fun link =>
    match get link.cid with
    | .found child => reached get fuel child
    | _ => []

/-- The sum of the raw lengths of the blocks at the ends of those paths. -/
def localSize (get : Nat → GetResult) (fuel : Nat) (nd : Block) : Nat :=
  ((reached get fuel nd).map Block.rawLength).sum

/-- No link of a block on those paths names a block that `get` does not find. -/
def fullyLocal (get : Nat → GetResult) (fuel : Nat) (nd : Block) : Bool :=
  (reached get fuel nd).all fun block => block.links.all fun link => (get link.cid).isFound

/-- What the paths through a link add to the sum. -/
def linkSize (get : Nat → GetResult) (fuel : Nat) (link : Link) : Nat :=
  match get link.cid with
  | .found child => localSize get fuel child
  | _ => 0

/-- Whether the paths through a link stay local. -/
def linkLocal (get : Nat → GetResult) (fuel : Nat) (link : Link) : Bool :=
  match get link.cid with
  | .found child => fullyLocal get fuel child
  | _ => false

section Paths

variable (get : Nat → GetResult) (fuel : Nat) (nd : Block)

theorem sum_map_flatMap {α β : Type} (f : α → List β) (g : β → Nat) : ∀ l : List α,
    ((l.flatMap f).map g).sum = (l.map fun a => ((f a).map g).sum).sum
  | [] => rfl
  | a :: l => by simp [List.sum_append, sum_map_flatMap f g l]

theorem localSize_succ :
    localSize get (fuel + 1) nd = nd.rawLength + (nd.links.map (linkSize get fuel)).sum := by
  rw [localSize, reached, List.map_cons, List.sum_cons, sum_map_flatMap]
  congr 3
  funext link
  unfold linkSize localSize
  split <;> rfl

theorem fullyLocal_succ :
    fullyLocal get (fuel + 1) nd = nd.links.all (linkLocal get fuel) := by
  simp only [fullyLocal, reached, List.all_cons, List.all_flatMap]
  induction nd.links with
  | nil => rfl
  | cons link links ih =>
    simp only [List.all_cons, ← ih, linkLocal, fullyLocal]
    cases get link.cid <;>
      simp only [GetResult.isFound, Bool.true_and, Bool.false_and, Bool.and_left_comm]

end Paths

/-! ### The walk -/

/-- Modular arithmetic of the walk's `uint64` additions. -/
theorem toNat_add_uint64 (a b : UInt64) : (a + b).toNat = (a.toNat + b.toNat) % 2 ^ 64 :=
  BitVec.toNat_add _ _

theorem toNat_ofNat_uint64 (n : Nat) : (UInt64.ofNat n).toNat = n % 2 ^ 64 :=
  BitVec.toNat_ofNat _ _

/-- The store never fails with an error other than a missing block. -/
def NoFailure (get : Nat → GetResult) : Prop := ∀ c err, get c ≠ .failed err

/-- What the walk of a child gives: a result, without error when the store never fails, and
when without error the child's path sum mod `2^64` and its locality. -/
def WalkSpec (get : Nat → GetResult) (fuel : Nat) (child : Block) (r : WalkResult) : Prop :=
  (NoFailure get → r.err = none) ∧
    (r.err = none → r.sizeLocal.toNat = localSize get fuel child % 2 ^ 64 ∧
      r.isLocal = fullyLocal get fuel child)

/-- The loop over the links, given the recursive call's specification for every child found:
it returns, and when without error it has added the path sums through every link and anded
their locality. -/
theorem walkLinks_spec {get : Nat → GetResult} {walk : Block → Option WalkResult} {fuel : Nat} :
    ∀ (links : List Link), (∀ link ∈ links, ∀ child, get link.cid = .found child →
        ∃ r, walk child = some r ∧ WalkSpec get fuel child r) →
      ∀ (isLocal : Bool) (sizeLocal : UInt64), ∃ r, walkLinks get walk links isLocal sizeLocal = some r ∧
        (NoFailure get → r.err = none) ∧
        (r.err = none → r.sizeLocal.toNat =
            (sizeLocal.toNat + (links.map (linkSize get fuel)).sum) % 2 ^ 64 ∧
          r.isLocal = (isLocal && links.all (linkLocal get fuel)))
  | [], _, isLocal, sizeLocal =>
    ⟨_, rfl, fun _ => rfl, fun _ => ⟨by simp [Nat.mod_eq_of_lt sizeLocal.toNat_lt_size], by simp⟩⟩
  | link :: links, hwalk, isLocal, sizeLocal => by
    have hrest := walkLinks_spec links fun l hl => hwalk l (List.mem_cons_of_mem _ hl)
    cases hget : get link.cid with
    | notFound =>
      obtain ⟨r, hr, hnf, hspec⟩ := hrest false sizeLocal
      refine ⟨r, by simp only [walkLinks, hget, hr], hnf, fun herr => ?_⟩
      obtain ⟨hsize, hlocal⟩ := hspec herr
      simp [hsize, hlocal, linkSize, linkLocal, hget]
    | failed err =>
      exact ⟨⟨isLocal, sizeLocal, some err⟩, by simp only [walkLinks, hget],
        fun hnf => absurd hget (hnf _ _), fun h => by cases h⟩
    | found child =>
      obtain ⟨rc, hrc, hcnf, hcspec⟩ := hwalk link (List.mem_cons_self _ _) child hget
      rcases rc with ⟨childLocal, childLocalSize, _ | err⟩
      · obtain ⟨hcsize, hclocal⟩ := hcspec rfl
        obtain ⟨r, hr, hnf, hspec⟩ := hrest (isLocal && childLocal) (sizeLocal + childLocalSize)
        refine ⟨r, by simp only [walkLinks, hget, hrc, hr], hnf, fun herr => ?_⟩
        obtain ⟨hsize, hlocal⟩ := hspec herr
        refine ⟨?_, ?_⟩
        · rw [hsize, toNat_add_uint64, hcsize, List.map_cons, List.sum_cons, linkSize, hget]
          simp only [Nat.add_mod_mod, Nat.mod_add_mod, Nat.add_assoc]
        · simp [hlocal, ← hclocal, linkLocal, hget, Bool.and_assoc]
      · exact ⟨⟨isLocal, sizeLocal, some err⟩, by simp only [walkLinks, hget, hrc],
          fun hnf => by simpa using hcnf hnf, fun h => by cases h⟩

/-- An acyclic block map whose links record the cumulative sizes of the blocks they name. -/
structure BlockMap where
  /-- The block of each CID in the map. -/
  block : Nat → Option Block
  /-- A rank that every link lowers, so the map is acyclic. -/
  rank : Nat → Nat
  /-- Every link of a block names a block of the map, of lower rank, and records its `Size()`. -/
  link_ok : ∀ c nd, block c = some nd → ∀ link ∈ nd.links,
    ∃ child, block link.cid = some child ∧ rank link.cid < rank c ∧ link.size = child.size

/-- A local store of some of `G`'s blocks, as `dagserv.Get` with an offline exchange sees it: a
block it gives is `G`'s block of that CID. -/
structure LocalStore (G : BlockMap) where
  /-- `dagserv.Get`. -/
  get : Nat → GetResult
  /-- The store holds only blocks of the map. -/
  found_sub : ∀ c block, get c = .found block → G.block c = some block

/-- A child the store gives for a link of a node of the map is the map's block of that CID, of
lower rank than the node. -/
theorem LocalStore.child_rank {G : BlockMap} (S : LocalStore G) {c : Nat} {nd child : Block}
    {link : Link} (hnd : G.block c = some nd) (hlink : link ∈ nd.links)
    (hget : S.get link.cid = .found child) :
    G.block link.cid = some child ∧ G.rank link.cid < G.rank c := by
  obtain ⟨child', hchild', hrank, -⟩ := G.link_ok c nd hnd link hlink
  have hsame := S.found_sub _ _ hget
  rw [hchild'] at hsame
  cases hsame
  exact ⟨hchild', hrank⟩

/-- The walk returns, for every node of the map with more fuel than its rank, and when without
error its sum is the path sum through local blocks mod `2^64`, and its flag says whether no link
on those paths names a missing block. -/
theorem walkBlock_spec {G : BlockMap} (S : LocalStore G) :
    ∀ (fuel c : Nat) (nd : Block), G.block c = some nd → G.rank c < fuel →
      ∃ r, walkBlock S.get fuel nd = some r ∧ WalkSpec S.get fuel nd r
  | 0, _, _, _, hfuel => absurd hfuel (Nat.not_lt_zero _)
  | fuel + 1, c, nd, hnd, hfuel => by
    have hlinks : ∀ link ∈ nd.links, ∀ child, S.get link.cid = .found child →
        ∃ r, walkBlock S.get fuel child = some r ∧ WalkSpec S.get fuel child r := by
      intro link hlink child hget
      obtain ⟨hchild, hrank⟩ := S.child_rank hnd hlink hget
      exact walkBlock_spec S fuel link.cid child hchild (by omega)
    obtain ⟨r, hr, hnf, hspec⟩ := walkLinks_spec nd.links hlinks true (UInt64.ofNat nd.rawLength)
    refine ⟨r, hr, hnf, fun herr => ?_⟩
    obtain ⟨hsize, hlocal⟩ := hspec herr
    rw [hsize, localSize_succ, fullyLocal_succ, hlocal, toNat_ofNat_uint64, Nat.mod_add_mod]
    simp

/-! ### The fuel is no part of the result -/

/-- The walk's loop depends only on what the recursive call gives for the children found. -/
theorem walkLinks_congr {get : Nat → GetResult} {walk walk' : Block → Option WalkResult} :
    ∀ (links : List Link), (∀ link ∈ links, ∀ child, get link.cid = .found child →
        walk child = walk' child) →
      ∀ (isLocal : Bool) (sizeLocal : UInt64),
        walkLinks get walk links isLocal sizeLocal = walkLinks get walk' links isLocal sizeLocal
  | [], _, _, _ => rfl
  | link :: links, h, isLocal, sizeLocal => by
    have hrest := walkLinks_congr links fun l hl => h l (List.mem_cons_of_mem _ hl)
    cases hget : get link.cid with
    | found child => simp only [walkLinks, hget, h link (List.mem_cons_self _ _) child hget, hrest]
    | notFound => simp only [walkLinks, hget, hrest]
    | failed err => simp only [walkLinks, hget]

/-- Any fuel above the node's rank gives the same walk. -/
theorem walkBlock_fuel_stable {G : BlockMap} (S : LocalStore G) :
    ∀ (fuel fuel' c : Nat) (nd : Block), G.block c = some nd → G.rank c < fuel → fuel ≤ fuel' →
      walkBlock S.get fuel' nd = walkBlock S.get fuel nd
  | 0, _, _, _, _, hfuel, _ => absurd hfuel (Nat.not_lt_zero _)
  | _ + 1, 0, _, _, _, _, hle => absurd hle (Nat.not_succ_le_zero _)
  | fuel + 1, fuel' + 1, c, nd, hnd, hfuel, hle =>
    walkLinks_congr nd.links (fun link hlink child hget => by
      obtain ⟨hchild, hrank⟩ := S.child_rank hnd hlink hget
      exact walkBlock_fuel_stable S fuel fuel' link.cid child hchild (by omega) (by omega)) _ _

/-- Any fuel above the node's rank reaches the same blocks, so the path sums and the locality
are those of every link path. -/
theorem reached_fuel_stable {G : BlockMap} (S : LocalStore G) :
    ∀ (fuel fuel' c : Nat) (nd : Block), G.block c = some nd → G.rank c < fuel → fuel ≤ fuel' →
      reached S.get fuel' nd = reached S.get fuel nd
  | 0, _, _, _, _, hfuel, _ => absurd hfuel (Nat.not_lt_zero _)
  | _ + 1, 0, _, _, _, _, hle => absurd hle (Nat.not_succ_le_zero _)
  | fuel + 1, fuel' + 1, c, nd, hnd, hfuel, hle => by
    simp only [reached]
    congr 1
    refine List.flatMap_congr fun link hlink => ?_
    cases hget : S.get link.cid with
    | found child =>
      obtain ⟨hchild, hrank⟩ := S.child_rank hnd hlink hget
      exact reached_fuel_stable S fuel fuel' link.cid child hchild (by omega) (by omega)
    | notFound => rfl
    | failed err => rfl

/-! ### `Size()` and the cumulative size -/

/-- The map as a store that holds every block. -/
def BlockMap.get (G : BlockMap) (c : Nat) : GetResult :=
  match G.block c with
  | some block => .found block
  | none => .notFound

/-- The store holding every block of the map. -/
def BlockMap.fullStore (G : BlockMap) : LocalStore G where
  get := G.get
  found_sub c block h := by
    unfold BlockMap.get at h
    split at h <;> simp_all

@[simp] theorem fullStore_get (G : BlockMap) : G.fullStore.get = G.get := rfl

/-- The cumulative size of `nd` in `G`: the sum of the raw lengths over every link path from it. -/
def cumulativeSize (G : BlockMap) (fuel : Nat) (nd : Block) : Nat := localSize G.get fuel nd

theorem get_of_block {G : BlockMap} {c : Nat} {block : Block} (h : G.block c = some block) :
    G.get c = .found block := by
  simp [BlockMap.get, h]

theorem LocalStore.get_found {G : BlockMap} (S : LocalStore G) {c : Nat} {block : Block}
    (h : S.get c = .found block) : G.get c = .found block :=
  get_of_block (S.found_sub c block h)

theorem noFailure_full (G : BlockMap) : NoFailure G.get := by
  intro c err h
  unfold BlockMap.get at h
  split at h <;> cases h

theorem size_eq_foldl (nd : Block) :
    nd.size = nd.links.foldl (fun s link => s + link.size) (UInt64.ofNat nd.rawLength) := by
  cases nd <;> rfl

theorem toNat_foldl_add : ∀ (links : List Link) (s : UInt64),
    (links.foldl (fun s link => s + link.size) s).toNat =
      (s.toNat + (links.map fun link => link.size.toNat).sum) % 2 ^ 64
  | [], s => by simp [Nat.mod_eq_of_lt s.toNat_lt_size]
  | link :: links, s => by
    rw [List.foldl_cons, toNat_foldl_add links, toNat_add_uint64, List.map_cons, List.sum_cons,
      Nat.mod_add_mod, Nat.add_assoc]

/-- Two sums that agree term by term mod `m` agree mod `m`. -/
theorem sum_map_mod {α : Type} {m : Nat} {f g : α → Nat} :
    ∀ l : List α, (∀ a ∈ l, f a % m = g a % m) → (l.map f).sum % m = (l.map g).sum % m
  | [], _ => rfl
  | a :: l, h => by
    rw [List.map_cons, List.sum_cons, List.map_cons, List.sum_cons, Nat.add_mod,
      h a (List.mem_cons_self a l), sum_map_mod l fun b hb => h b (List.mem_cons_of_mem a hb),
      ← Nat.add_mod]

/-- `Size()` of a node of the map is its cumulative size mod `2^64`: each link records the
`Size()` of its block, which counts that block's paths in turn. -/
theorem size_toNat (G : BlockMap) : ∀ (fuel c : Nat) (nd : Block), G.block c = some nd →
    G.rank c < fuel → nd.size.toNat = cumulativeSize G fuel nd % 2 ^ 64
  | 0, _, _, _, hfuel => absurd hfuel (Nat.not_lt_zero _)
  | fuel + 1, c, nd, hnd, hfuel => by
    have hlinks : (nd.links.map fun link => link.size.toNat).sum % 2 ^ 64 =
        (nd.links.map (linkSize G.get fuel)).sum % 2 ^ 64 := by
      refine sum_map_mod _ fun link hlink => ?_
      obtain ⟨child, hchild, hrank, hsize⟩ := G.link_ok c nd hnd link hlink
      rw [hsize, size_toNat G fuel link.cid child hchild (by omega), Nat.mod_mod, linkSize,
        get_of_block hchild, cumulativeSize]
    rw [size_eq_foldl, toNat_foldl_add, toNat_ofNat_uint64, cumulativeSize, localSize_succ,
      Nat.mod_add_mod, Nat.add_mod, hlinks, ← Nat.add_mod]

/-- The paths through local blocks are some of all paths. -/
theorem localSize_le {G : BlockMap} (S : LocalStore G) :
    ∀ (fuel : Nat) (nd : Block), localSize S.get fuel nd ≤ cumulativeSize G fuel nd
  | 0, _ => le_refl _
  | fuel + 1, nd => by
    rw [cumulativeSize, localSize_succ, localSize_succ]
    refine Nat.add_le_add_left (List.sum_le_sum fun link _ => ?_) _
    unfold linkSize
    cases hget : S.get link.cid with
    | found child => rw [S.get_found hget]; exact localSize_le S fuel child
    | _ => exact Nat.zero_le _

/-- When no link on the local paths names a missing block, they are all the paths. -/
theorem localSize_eq_of_fullyLocal {G : BlockMap} (S : LocalStore G) :
    ∀ (fuel : Nat) (nd : Block), fullyLocal S.get fuel nd = true →
      localSize S.get fuel nd = cumulativeSize G fuel nd
  | 0, _, _ => rfl
  | fuel + 1, nd, h => by
    rw [fullyLocal_succ, List.all_eq_true] at h
    rw [cumulativeSize, localSize_succ, localSize_succ]
    congr 2
    refine List.map_congr_left fun link hlink => ?_
    have hl := h link hlink
    unfold linkLocal at hl
    unfold linkSize
    split at hl
    · rename_i child hget
      rw [S.get_found hget]
      exact localSize_eq_of_fullyLocal S fuel child hl
    · cases hl

/-- In the store holding every block, every path is local. -/
theorem fullyLocal_full (G : BlockMap) : ∀ (fuel c : Nat) (nd : Block), G.block c = some nd →
    G.rank c < fuel → fullyLocal G.get fuel nd = true
  | 0, _, _, _, hfuel => absurd hfuel (Nat.not_lt_zero _)
  | fuel + 1, c, nd, hnd, hfuel => by
    rw [fullyLocal_succ, List.all_eq_true]
    intro link hlink
    obtain ⟨child, hchild, hrank, -⟩ := G.link_ok c nd hnd link hlink
    rw [linkLocal, get_of_block hchild]
    exact fullyLocal_full G fuel link.cid child hchild (by omega)

/-- `files stat --with-local` on a node of an acyclic block map whose links record the sizes of
the blocks they name, with a local store of some of its blocks. With more fuel than the node's
rank the walk returns, without error when the store has no other failure than missing blocks.
Without error: its sum is the sum of the raw lengths over the link paths through local blocks,
counted once per path and reduced mod `2^64`, and that path sum is at most the cumulative size
over all paths; its flag says exactly that no link on those paths names a missing block;
`Size()` is the cumulative size mod `2^64`, so a local walk returns `Size()`. While the
cumulative size stays below `2^64`, no addition wraps: the sum is exact and at most `Size()`. -/
theorem walkBlock_local_size (G : BlockMap) (S : LocalStore G) {c fuel : Nat} {nd : Block}
    (hnd : G.block c = some nd) (hfuel : G.rank c < fuel) :
    ∃ r, walkBlock S.get fuel nd = some r ∧ (NoFailure S.get → r.err = none) ∧
      (r.err = none →
        r.sizeLocal.toNat = localSize S.get fuel nd % 2 ^ 64 ∧
        (r.isLocal = true ↔ fullyLocal S.get fuel nd = true) ∧
        localSize S.get fuel nd ≤ cumulativeSize G fuel nd ∧
        nd.size.toNat = cumulativeSize G fuel nd % 2 ^ 64 ∧
        (r.isLocal = true → r.sizeLocal = nd.size) ∧
        (cumulativeSize G fuel nd < 2 ^ 64 →
          r.sizeLocal.toNat = localSize S.get fuel nd ∧ r.sizeLocal ≤ nd.size)) := by
  obtain ⟨r, hr, hnf, hspec⟩ := walkBlock_spec S fuel c nd hnd hfuel
  refine ⟨r, hr, hnf, fun herr => ?_⟩
  obtain ⟨hsum, hlocal⟩ := hspec herr
  have hle := localSize_le S fuel nd
  have hsize := size_toNat G fuel c nd hnd hfuel
  refine ⟨hsum, by rw [hlocal], hle, hsize, fun hl => ?_, fun hlt => ?_⟩
  · rw [hlocal] at hl
    apply UInt64.toNat.inj
    rw [hsum, hsize, localSize_eq_of_fullyLocal S fuel nd hl]
  · have hexact : r.sizeLocal.toNat = localSize S.get fuel nd := by
      rw [hsum, Nat.mod_eq_of_lt (lt_of_le_of_lt hle hlt)]
    refine ⟨hexact, ?_⟩
    show r.sizeLocal.toNat ≤ nd.size.toNat
    rw [hexact, hsize, Nat.mod_eq_of_lt hlt]
    exact hle

/-! ### A DAG whose cumulative size passes `2^64` -/

/-- The size recorded for block `k` of the stacked DAG: `101 * 2^k - 100`, wrapped. -/
def stackedSize (k : Nat) : UInt64 := UInt64.ofNat (101 * 2 ^ k - 100)

/-- Block `k` of the stacked DAG: a one-byte raw leaf for `k = 0`, and above it 100-byte dag-pb
nodes with two links to the block below, so that the cumulative size doubles at each level. -/
def stackedBlock : Nat → Block
  | 0 => .raw 1
  | k + 1 => .proto 100 [⟨k, stackedSize k⟩, ⟨k, stackedSize k⟩]

/-- The root: a 100-byte node with links to block `64` and to the leaf. -/
def stackedRoot : Block := .proto 100 [⟨64, stackedSize 64⟩, ⟨0, stackedSize 0⟩]

theorem stackedBlock_succ (k : Nat) :
    stackedBlock (k + 1) = .proto 100 [⟨k, stackedSize k⟩, ⟨k, stackedSize k⟩] := rfl

/-- Each level records the size of the level below. -/
theorem stackedBlock_size : ∀ k, (stackedBlock k).size = stackedSize k
  | 0 => rfl
  | k + 1 => by
    apply UInt64.toNat.inj
    have hk : 1 ≤ 2 ^ k := Nat.one_le_two_pow
    simp only [size_eq_foldl, toNat_foldl_add, stackedBlock, Block.links, Block.rawLength,
      List.map_cons, List.map_nil, List.sum_cons, List.sum_nil, stackedSize, toNat_ofNat_uint64,
      pow_succ]
    omega

/-- Blocks `0` to `64` of the stacked DAG and its root, at CID `65`, ranked by CID. -/
def stackedMap : BlockMap where
  block c := if c ≤ 64 then some (stackedBlock c) else if c = 65 then some stackedRoot else none
  rank c := c
  link_ok c nd hnd link hlink := by
    dsimp only at hnd ⊢
    split at hnd
    · cases hnd
      cases c with
      | zero => simp [stackedBlock, Block.links] at hlink
      | succ k =>
        simp only [stackedBlock, Block.links, List.mem_cons, List.mem_singleton,
          List.not_mem_nil, or_false, or_self] at hlink
        subst hlink
        exact ⟨stackedBlock k, by simp only [if_pos (show k ≤ 64 by omega)], by simp,
          (stackedBlock_size k).symm⟩
    · split at hnd
      · cases hnd
        simp only [stackedRoot, Block.links, List.mem_cons, List.mem_singleton,
          List.not_mem_nil, or_false] at hlink
        rcases hlink with rfl | rfl
        · exact ⟨stackedBlock 64, rfl, by simp_all, (stackedBlock_size 64).symm⟩
        · exact ⟨stackedBlock 0, rfl, by simp_all, (stackedBlock_size 0).symm⟩
      · cases hnd

/-- A local store holding only the root and the leaf. -/
def partialStore : LocalStore stackedMap where
  get c := if c = 0 ∨ c = 65 then stackedMap.get c else .notFound
  found_sub c block h := by
    dsimp only at h
    split at h
    · exact stackedMap.fullStore.found_sub c block h
    · cases h

/-- The walk of block `k` over all its paths adds up `101 * 2^k - 100` bytes. -/
theorem localSize_stackedBlock : ∀ k, k ≤ 64 →
    localSize stackedMap.get (k + 1) (stackedBlock k) = 101 * 2 ^ k - 100
  | 0, _ => rfl
  | k + 1, hk => by
    have hget : stackedMap.get k = .found (stackedBlock k) :=
      get_of_block (if_pos (show k ≤ 64 by omega))
    have hpow : 1 ≤ 2 ^ k := Nat.one_le_two_pow
    rw [localSize_succ]
    simp only [stackedBlock_succ, Block.links, Block.rawLength, List.map_cons, List.map_nil,
      List.sum_cons, List.sum_nil, linkSize, hget, localSize_stackedBlock k (by omega), pow_succ]
    omega

/-- The walk of the stacked root, from the store holding only the root and the leaf. -/
theorem stat_stacked_root :
    stackedMap.block 65 = some stackedRoot ∧ stackedMap.rank 65 < 66 ∧
      ∃ r, walkBlock partialStore.get 66 stackedRoot = some r ∧
        (NoFailure partialStore.get → r.err = none) ∧
        (r.err = none →
          r.sizeLocal.toNat = localSize partialStore.get 66 stackedRoot % 2 ^ 64 ∧
          (r.isLocal = true ↔ fullyLocal partialStore.get 66 stackedRoot = true) ∧
          localSize partialStore.get 66 stackedRoot ≤ cumulativeSize stackedMap 66 stackedRoot ∧
          stackedRoot.size.toNat = cumulativeSize stackedMap 66 stackedRoot % 2 ^ 64 ∧
          (r.isLocal = true → r.sizeLocal = stackedRoot.size) ∧
          (cumulativeSize stackedMap 66 stackedRoot < 2 ^ 64 →
            r.sizeLocal.toNat = localSize partialStore.get 66 stackedRoot ∧
              r.sizeLocal ≤ stackedRoot.size)) :=
  ⟨rfl, by decide, @walkBlock_local_size stackedMap partialStore 65 66 stackedRoot rfl (by decide)⟩

/-- `Size()` and the walk wrap at `2^64` on a DAG of stacked links. With the store holding only
the root and the leaf, the walk of the root finds 101 local bytes without error, while `Size()`
has wrapped to 1: the stat line reads `Local: 101 B of 1 B`. With every block local, the walk of
block `64` returns without error, but its paths add up to `101 * 2^64 - 100` bytes and it
returns that sum wrapped. -/
theorem stacked_dag_wraps :
    stackedMap.block 65 = some stackedRoot ∧
      walkBlock partialStore.get 66 stackedRoot = some ⟨false, 101, none⟩ ∧
      stackedRoot.size = 1 ∧
      ∃ r, walkBlock stackedMap.get 65 (stackedBlock 64) = some r ∧ r.err = none ∧
        r.isLocal = true ∧
        localSize stackedMap.get 65 (stackedBlock 64) = 101 * 2 ^ 64 - 100 ∧
        r.sizeLocal.toNat = 2 ^ 64 - 100 := by
  refine ⟨rfl, by decide, by decide, ?_⟩
  obtain ⟨r, hr, hnf, hspec⟩ := walkBlock_spec stackedMap.fullStore 65 64 (stackedBlock 64) rfl
    (by decide)
  rw [fullStore_get] at hr hnf hspec
  have herr := hnf (noFailure_full stackedMap)
  obtain ⟨hsum, hlocal⟩ := hspec herr
  have hsize : localSize stackedMap.get 65 (stackedBlock 64) = 101 * 2 ^ 64 - 100 :=
    localSize_stackedBlock 64 le_rfl
  refine ⟨r, hr, herr, ?_, hsize, ?_⟩
  · rw [hlocal]
    exact fullyLocal_full stackedMap 65 64 (stackedBlock 64) rfl (by decide)
  · rw [hsum, hsize]
    decide

end BockIpfs.FilesStat
