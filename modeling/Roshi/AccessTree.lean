import Mathlib.Data.List.Destutter
import Roshi.Lib.PairTree
import Roshi.State.Vault

/-!
# The access tree

`client/src/access.rs`: the tree an operator builds over the owners a private vault admits,
and the proofs it hands out.  Entries are sorted by their leaves and deduplicated, levels
are paired with the odd node promoted, and a proof lists the siblings on the way up.

The program's own check is `verifyAccessMerkleProof`.  It accepts every proof of the tree,
whatever the hash; and what it accepts is a member, unless the inputs hashed contain a
collision or an input with the digest of the empty tree (`access_tree_admits_members`).  So
a private vault that records the root admits its list (`Vault.allowsDepositor_of_root`), and
the root is that of the set, whatever order it is given in (`new_congr`).
-/

namespace Roshi

open Lib

variable (rt : Runtime)

def EMPTY_ACCESS_MERKLE_ROOT : Bytes 32 := Bytes.zero 32

structure AccessMerkleEntry where
  owner : Pubkey
  leaf : Bytes 32
  deriving DecidableEq

/-- An owner with its leaf. -/
def AccessMerkleEntry.ofOwner (owner : Pubkey) : AccessMerkleEntry where
  owner := owner
  leaf := accessMerkleLeaf rt owner

/-- The order entries are sorted in: by leaf, then by owner. -/
def AccessMerkleEntry.le (left right : AccessMerkleEntry) : Prop :=
  left.leaf.toList < right.leaf.toList ∨
    left.leaf = right.leaf ∧ left.owner.toList ≤ right.owner.toList

instance : DecidableRel AccessMerkleEntry.le := fun _ _ => inferInstanceAs (Decidable (_ ∨ _))

structure AccessMerkleTree where
  entries : List AccessMerkleEntry
  layers : List (List (Bytes 32))

namespace AccessMerkleTree

/-- The owners with their leaves, sorted, each owner once. -/
def sortedEntries (owners : List Pubkey) : List AccessMerkleEntry :=
  let entries := (owners.map (AccessMerkleEntry.ofOwner rt)).insertionSort AccessMerkleEntry.le
  entries.destutter fun left right => left.owner ≠ right.owner

/-- The lowest layer. -/
def leaves (owners : List Pubkey) : List (Bytes 32) :=
  (sortedEntries rt owners).map AccessMerkleEntry.leaf

def new (owners : List Pubkey) : AccessMerkleTree :=
  let entries := sortedEntries rt owners
  { entries
    layers :=
      if entries = [] then []
      else PairTree.levels (accessMerkleNode rt) (entries.map AccessMerkleEntry.leaf) }

variable (tree : AccessMerkleTree)

def isEmpty : Bool := tree.entries.isEmpty

def root : Bytes 32 :=
  match tree.layers.getLast?.bind List.head? with
  | some top => top
  | none => EMPTY_ACCESS_MERKLE_ROOT

def proof (owner : Pubkey) : Option (List (Bytes 32)) :=
  match tree.entries.findIdx? fun entry => entry.owner = owner with
  | some index =>
    let proof := PairTree.path tree.layers index
    if proof.length ≤ MAX_ACCESS_PROOF_LEN then some proof else none
  | none => none

def contains (owner : Pubkey) : Bool := tree.entries.any fun entry => entry.owner = owner

/-- The levels above the leaves. -/
def depth : Nat := tree.layers.length - 1

end AccessMerkleTree

/-! ### What is hashed -/

/-- The input of a leaf, in the chunks it is hashed in. -/
def leafInput (owner : Pubkey) : List (List U8) := [ACCESS_LEAF_DOMAIN, owner.toList]

/-- The input of a node: its children in byte order. -/
def nodeInput (left right : Bytes 32) : List (List U8) :=
  if left.toList ≤ right.toList then [ACCESS_NODE_DOMAIN, left.toList, right.toList]
  else [ACCESS_NODE_DOMAIN, right.toList, left.toList]

/-- The inputs hashed to build the tree of `owners`. -/
def treeInputs (owners : List Pubkey) : List (List (List U8)) :=
  owners.map leafInput ++
    (PairTree.built (accessMerkleNode rt) (AccessMerkleTree.leaves rt owners)).map
      fun pair => nodeInput pair.1 pair.2

/-- The inputs hashed to check a proof. -/
def proofInputs (owner : Pubkey) (proof : List (Bytes 32)) : List (List (List U8)) :=
  leafInput owner ::
    (PairTree.trail (accessMerkleNode rt) (accessMerkleLeaf rt owner) proof).map
      fun pair => nodeInput pair.1 pair.2

/-- Two of the inputs are different bytes with the same digest. -/
def Collides (inputs : List (List (List U8))) : Prop :=
  ∃ x ∈ inputs, ∃ y ∈ inputs, x.flatten ≠ y.flatten ∧ rt.hashv x = rt.hashv y

/-- One of the inputs has the digest that stands for the empty tree. -/
def ZeroDigest (inputs : List (List (List U8))) : Prop :=
  ∃ x ∈ inputs, rt.hashv x = EMPTY_ACCESS_MERKLE_ROOT

variable {rt} {owners : List Pubkey} {k : Pubkey}

theorem accessMerkleNode_eq (a b : Bytes 32) :
    accessMerkleNode rt a b = rt.hashv (nodeInput a b) := by
  unfold accessMerkleNode nodeInput
  split <;> rfl

/-- The order of the children does not matter. -/
theorem nodeInput_comm (a b : Bytes 32) : nodeInput a b = nodeInput b a := by
  unfold nodeInput
  by_cases hab : a.toList ≤ b.toList
  · by_cases hba : b.toList ≤ a.toList
    · rw [List.le_antisymm hab hba]
    · rw [if_pos hab, if_neg hba]
  · rw [if_neg hab, if_pos ((List.le_total _ _).resolve_left hab)]

theorem accessMerkleNode_comm (rt : Runtime) (a b : Bytes 32) :
    accessMerkleNode rt a b = accessMerkleNode rt b a := by
  rw [accessMerkleNode_eq, accessMerkleNode_eq, nodeInput_comm]

/-- A node input spells its children, up to their order. -/
theorem nodeInput_inj {a b c d : Bytes 32}
    (h : (nodeInput a b).flatten = (nodeInput c d).flatten) : a = c ∨ a = d := by
  have hkeys : ∀ x y : Bytes 32, ∃ u v : Bytes 32,
      (nodeInput x y).flatten = ACCESS_NODE_DOMAIN ++ (u.toList ++ v.toList) ∧
        (u = x ∧ v = y ∨ u = y ∧ v = x) := by
    intro x y
    unfold nodeInput
    split
    · exact ⟨x, y, by simp, .inl ⟨rfl, rfl⟩⟩
    · exact ⟨y, x, by simp, .inr ⟨rfl, rfl⟩⟩
  obtain ⟨u, v, hx, huv⟩ := hkeys a b
  obtain ⟨u', v', hy, huv'⟩ := hkeys c d
  rw [hx, hy, List.append_cancel_left_eq] at h
  obtain ⟨hu, hv⟩ := List.append_inj h (by simp)
  obtain rfl := Vector.toList_inj.mp hu
  obtain rfl := Vector.toList_inj.mp hv
  rcases huv with ⟨rfl, rfl⟩ | ⟨rfl, rfl⟩
  · exact huv'.imp And.left And.left
  · exact huv'.symm.imp And.right And.right

theorem leafInput_inj {a b : Pubkey} (h : (leafInput a).flatten = (leafInput b).flatten) :
    a = b := by
  simp only [leafInput, List.flatten_cons, List.flatten_nil, List.append_nil,
    List.append_cancel_left_eq] at h
  exact Vector.toList_inj.mp h

/-- No bytes are the input of a leaf and of a node. -/
theorem leafInput_ne_nodeInput (owner : Pubkey) (a b : Bytes 32) :
    (leafInput owner).flatten ≠ (nodeInput a b).flatten := by
  intro h
  have hlen := congrArg List.length h
  unfold nodeInput at hlen
  split at hlen <;> simp [leafInput, ACCESS_LEAF_DOMAIN, ACCESS_NODE_DOMAIN] at hlen

/-! ### Entries -/

namespace AccessMerkleTree

/-- Dropping repeated owners loses none of them. -/
theorem exists_mem_destutter' {x a : AccessMerkleEntry} {l : List AccessMerkleEntry}
    (hx : x ∈ a :: l) :
    ∃ y ∈ l.destutter' (fun left right => left.owner ≠ right.owner) a, y.owner = x.owner := by
  induction l generalizing a with
  | nil =>
    obtain rfl := List.mem_singleton.mp hx
    exact ⟨x, List.mem_singleton.mpr rfl, rfl⟩
  | cons b l ih =>
    by_cases hab : a.owner ≠ b.owner
    · rw [List.destutter'_cons_pos l hab]
      rcases List.mem_cons.mp hx with rfl | hx
      · exact ⟨x, List.mem_cons_self, rfl⟩
      · obtain ⟨y, hy, hxy⟩ := ih hx
        exact ⟨y, List.mem_cons_of_mem _ hy, hxy⟩
    · rw [List.destutter'_cons_neg l hab]
      rcases List.mem_cons.mp hx with rfl | hx
      · exact ih List.mem_cons_self
      · rcases List.mem_cons.mp hx with rfl | hx
        · exact ⟨a, List.mem_destutter' _ _ _, not_not.mp hab⟩
        · exact ih (List.mem_cons_of_mem _ hx)

/-- Each entry is an owner of the list with the leaf of that owner. -/
theorem of_mem_sortedEntries {entry : AccessMerkleEntry} (h : entry ∈ sortedEntries rt owners) :
    entry.owner ∈ owners ∧ entry.leaf = accessMerkleLeaf rt entry.owner := by
  have hmem := (List.mem_insertionSort _).mp ((List.destutter_sublist _ _).subset h)
  obtain ⟨owner, howner, rfl⟩ := List.mem_map.mp hmem
  exact ⟨howner, rfl⟩

/-- And each owner of the list has one. -/
theorem exists_mem_sortedEntries (rt : Runtime) (h : k ∈ owners) :
    ∃ entry ∈ sortedEntries rt owners, entry.owner = k := by
  have hmem : AccessMerkleEntry.ofOwner rt k ∈
      (owners.map (AccessMerkleEntry.ofOwner rt)).insertionSort AccessMerkleEntry.le :=
    (List.mem_insertionSort _).mpr (List.mem_map_of_mem h)
  unfold sortedEntries
  cases hl : (owners.map (AccessMerkleEntry.ofOwner rt)).insertionSort AccessMerkleEntry.le with
  | nil =>
    rw [hl] at hmem
    cases hmem
  | cons a l =>
    rw [hl] at hmem
    exact exists_mem_destutter' hmem

/-! ### The tree of a set -/

instance : Std.Total AccessMerkleEntry.le where
  total a b := by
    by_cases h : a.leaf = b.leaf
    · exact (List.le_total a.owner.toList b.owner.toList).imp (.inr ⟨h, ·⟩) (.inr ⟨h.symm, ·⟩)
    · have hne : a.leaf.toList ≠ b.leaf.toList := mt Vector.toList_inj.mp h
      exact (List.le_total a.leaf.toList b.leaf.toList).imp
        (fun hle => .inl (Std.lt_of_le_of_ne hle hne))
        (fun hle => .inl (Std.lt_of_le_of_ne hle hne.symm))

instance : IsTrans AccessMerkleEntry AccessMerkleEntry.le where
  trans := by
    rintro a b c (hab | ⟨hab, hab'⟩) (hbc | ⟨hbc, hbc'⟩)
    · exact .inl (List.lt_trans hab hbc)
    · exact .inl (hbc ▸ hab)
    · exact .inl (hab ▸ hbc)
    · exact .inr ⟨hab.trans hbc, List.le_trans hab' hbc'⟩

instance : Std.Antisymm AccessMerkleEntry.le where
  antisymm := by
    rintro ⟨o, l⟩ ⟨o', l'⟩ (hab | ⟨hab, hab'⟩) (hba | ⟨hba, hba'⟩)
    · exact absurd hba (List.lt_asymm hab)
    · exact absurd (hba ▸ hab) (List.lt_irrefl _)
    · exact absurd (hab ▸ hba) (List.lt_irrefl _)
    · obtain rfl : l = l' := hab
      obtain rfl : o = o' := Vector.toList_inj.mp (List.le_antisymm hab' hba')
      rfl

/-- Entries are told apart by their owners, so dropping repeats leaves each once. -/
theorem sortedEntries_eq_dedup (owners : List Pubkey) : sortedEntries rt owners =
    ((owners.map (AccessMerkleEntry.ofOwner rt)).insertionSort AccessMerkleEntry.le).dedup := by
  rw [← (List.pairwise_insertionSort AccessMerkleEntry.le _).destutter_eq_dedup, sortedEntries]
  refine (List.map_id _).symm.trans ((List.map_destutter ?_).trans (by rw [List.map_id]))
  intro a ha b hb
  obtain ⟨o, -, rfl⟩ := List.mem_map.mp ((List.mem_insertionSort _).mp ha)
  obtain ⟨o', -, rfl⟩ := List.mem_map.mp ((List.mem_insertionSort _).mp hb)
  exact not_congr ⟨congrArg _, congrArg AccessMerkleEntry.owner⟩

/-- **The tree depends on the set of its owners only**, not on their order or repetition. -/
theorem new_congr {owners' : List Pubkey} (h : ∀ owner, owner ∈ owners ↔ owner ∈ owners') :
    new rt owners = new rt owners' := by
  have hentries : sortedEntries rt owners = sortedEntries rt owners' := by
    rw [sortedEntries_eq_dedup, sortedEntries_eq_dedup]
    have hsorted : ∀ l : List AccessMerkleEntry,
        (l.insertionSort AccessMerkleEntry.le).dedup.Pairwise AccessMerkleEntry.le := fun l =>
      (List.pairwise_insertionSort _ l).sublist (List.dedup_sublist _)
    refine List.Perm.eq_of_pairwise' (hsorted _) (hsorted _) ?_
    rw [List.perm_ext_iff_of_nodup (List.nodup_dedup _) (List.nodup_dedup _)]
    intro entry
    simp only [List.mem_dedup, List.mem_insertionSort, List.mem_map, h]
  rw [new, new, hentries]

theorem contains_new : (new rt owners).contains k = true ↔ k ∈ owners := by
  simp only [contains, List.any_eq_true, decide_eq_true_eq]
  constructor
  · rintro ⟨entry, hentry, rfl⟩
    exact (of_mem_sortedEntries hentry).1
  · exact exists_mem_sortedEntries rt

theorem sortedEntries_eq_nil : sortedEntries rt owners = [] ↔ owners = [] := by
  constructor
  · intro h
    refine List.eq_nil_iff_forall_not_mem.mpr fun k hk => ?_
    obtain ⟨entry, hentry, -⟩ := exists_mem_sortedEntries rt hk
    rw [h] at hentry
    cases hentry
  · rintro rfl
    rfl

theorem isEmpty_new : (new rt owners).isEmpty = true ↔ owners = [] := by
  rw [isEmpty, List.isEmpty_iff]
  exact sortedEntries_eq_nil

theorem layers_new (h : owners ≠ []) :
    (new rt owners).layers = PairTree.levels (accessMerkleNode rt) (leaves rt owners) :=
  if_neg (mt sortedEntries_eq_nil.mp h)

theorem root_eq {tree : AccessMerkleTree} {top : Bytes 32}
    (h : tree.layers.getLast? = some [top]) : tree.root = top := by
  rw [root, h]
  rfl

theorem root_new_nil : (new rt []).root = EMPTY_ACCESS_MERKLE_ROOT := rfl

/-! ### Proofs of the tree -/

theorem proof_eq_some {tree : AccessMerkleTree} {proof : List (Bytes 32)} :
    tree.proof k = some proof ↔
      ∃ index, tree.entries.findIdx? (fun entry => entry.owner = k) = some index ∧
        PairTree.path tree.layers index = proof ∧ proof.length ≤ MAX_ACCESS_PROOF_LEN := by
  unfold AccessMerkleTree.proof
  cases tree.entries.findIdx? (fun entry => entry.owner = k) with
  | none => simp
  | some index =>
    simp only [Option.ite_none_right_eq_some, Option.some.injEq, exists_eq_left']
    constructor
    · rintro ⟨hlen, rfl⟩
      exact ⟨rfl, hlen⟩
    · rintro ⟨rfl, hlen⟩
      exact ⟨hlen, rfl⟩

/-- The position of an owner is that of its leaf. -/
theorem getElem?_leaves {index : Nat}
    (h : (new rt owners).entries.findIdx? (fun entry => entry.owner = k) = some index) :
    (leaves rt owners)[index]? = some (accessMerkleLeaf rt k) := by
  obtain ⟨hlt, howner, -⟩ := List.findIdx?_eq_some_iff_getElem.mp h
  obtain ⟨-, hleaf⟩ := of_mem_sortedEntries (List.getElem_mem hlt)
  rw [of_decide_eq_true howner] at hleaf
  rw [leaves, List.getElem?_map, show sortedEntries rt owners = (new rt owners).entries from rfl,
    List.getElem?_eq_getElem hlt, Option.map_some, hleaf]

theorem ne_nil_of_findIdx? {index : Nat}
    (h : (new rt owners).entries.findIdx? (fun entry => entry.owner = k) = some index) :
    owners ≠ [] := by
  rintro rfl
  cases h

/-- **Every proof of the tree is accepted**, for any hash. -/
theorem verify_proof {proof : List (Bytes 32)} (h : (new rt owners).proof k = some proof) :
    verifyAccessMerkleProof rt k (new rt owners).root proof = true := by
  obtain ⟨index, hindex, rfl, hlen⟩ := proof_eq_some.mp h
  have htop := PairTree.foldl_path (accessMerkleNode_comm rt) (getElem?_leaves hindex)
  rw [← layers_new (ne_nil_of_findIdx? hindex)] at htop
  rw [verifyAccessMerkleProof, root_eq htop, Bool.and_eq_true, decide_eq_true_eq]
  exact ⟨hlen, beq_self_eq_true _⟩

/-- **Exactly the members have one**, in a tree that is not too deep. -/
theorem isSome_proof (hdepth : (new rt owners).depth ≤ MAX_ACCESS_PROOF_LEN) :
    ((new rt owners).proof k).isSome = true ↔ k ∈ owners := by
  rw [Option.isSome_iff_exists]
  constructor
  · rintro ⟨proof, h⟩
    obtain ⟨index, hindex, -, -⟩ := proof_eq_some.mp h
    obtain ⟨hlt, howner, -⟩ := List.findIdx?_eq_some_iff_getElem.mp hindex
    obtain ⟨hmem, -⟩ := of_mem_sortedEntries (List.getElem_mem hlt)
    exact of_decide_eq_true howner ▸ hmem
  · intro hk
    obtain ⟨entry, hentry, howner⟩ := exists_mem_sortedEntries rt hk
    cases hindex : (new rt owners).entries.findIdx? (fun entry => entry.owner = k) with
    | none =>
      have hno := List.findIdx?_eq_none_iff.mp hindex entry hentry
      exact absurd howner (of_decide_eq_false hno)
    | some index =>
      refine ⟨_, proof_eq_some.mpr ⟨index, hindex, rfl, ?_⟩⟩
      have hpath : (PairTree.path (PairTree.levels (accessMerkleNode rt) (leaves rt owners))
          index).length + 1 ≤ _ := PairTree.length_path _ _
      rw [← layers_new (ne_nil_of_findIdx? hindex)] at hpath
      unfold depth at hdepth
      omega

end AccessMerkleTree

/-! ### Nobody else -/

/-- Equal digests among the inputs are digests of the same bytes. -/
theorem flatten_eq_of_not_collides {inputs : List (List (List U8))} (h : ¬ Collides rt inputs)
    {x y : List (List U8)} (hx : x ∈ inputs) (hy : y ∈ inputs) (he : rt.hashv x = rt.hashv y) :
    x.flatten = y.flatten := by
  by_contra hne
  exact h ⟨x, hx, y, hy, hne, he⟩

section Soundness

open AccessMerkleTree

variable {proof : List (Bytes 32)}

/-- What the tree holds is the digest of an owner's leaf, or of a node over two values it
holds. -/
theorem holds_cases {d : Bytes 32}
    (h : PairTree.Holds (accessMerkleNode rt) (leaves rt owners) d) :
    (∃ owner ∈ owners, leafInput owner ∈ treeInputs rt owners ∧ d = rt.hashv (leafInput owner)) ∨
      ∃ a b, nodeInput a b ∈ treeInputs rt owners ∧ d = rt.hashv (nodeInput a b) ∧
        PairTree.Holds (accessMerkleNode rt) (leaves rt owners) a ∧
        PairTree.Holds (accessMerkleNode rt) (leaves rt owners) b := by
  rcases h with hleaf | ⟨pair, hpair, rfl⟩
  · obtain ⟨entry, hentry, rfl⟩ := List.mem_map.mp hleaf
    obtain ⟨howner, heq⟩ := of_mem_sortedEntries hentry
    exact .inl ⟨entry.owner, howner, List.mem_append_left _ (List.mem_map_of_mem howner), heq⟩
  · obtain ⟨ha, hb⟩ := PairTree.holds_of_mem_built hpair
    refine .inr ⟨pair.1, pair.2, List.mem_append_right _ ?_, accessMerkleNode_eq _ _, ha, hb⟩
    exact List.mem_map.mpr ⟨pair, hpair, rfl⟩

/-- **Down the proof**: without a collision, every digest it passes is in the tree, and the
leaf it starts from is a member's.  By induction from the root; each step reads the pair
back from the digest. -/
theorem mem_of_accepted (hne : owners ≠ [])
    (hcol : ¬ Collides rt (treeInputs rt owners ++ proofInputs rt k proof))
    (h : proof.foldl (accessMerkleNode rt) (accessMerkleLeaf rt k) = (new rt owners).root) :
    k ∈ owners := by
  have hread : ∀ x ∈ treeInputs rt owners, ∀ y ∈ proofInputs rt k proof,
      rt.hashv y = rt.hashv x → y.flatten = x.flatten := fun x hx y hy he =>
    flatten_eq_of_not_collides hcol (List.mem_append_right _ hy) (List.mem_append_left _ hx) he
  have htop : PairTree.Holds (accessMerkleNode rt) (leaves rt owners)
      (proof.foldl (accessMerkleNode rt) (accessMerkleLeaf rt k)) := by
    obtain ⟨top, htop⟩ : ∃ top, (PairTree.levels (accessMerkleNode rt) (leaves rt owners)).getLast?
        = some [top] :=
      PairTree.getLast?_levels (by simpa [leaves] using mt sortedEntries_eq_nil.mp hne)
    rw [h, root_eq (by rw [layers_new hne]; exact htop)]
    exact PairTree.holds_top htop
  have hleaf : PairTree.Holds (accessMerkleNode rt) (leaves rt owners) (accessMerkleLeaf rt k) := by
    refine PairTree.of_foldl ?_ htop
    intro pair hpair hheld
    have hy : nodeInput pair.1 pair.2 ∈ proofInputs rt k proof :=
      List.mem_cons_of_mem _ (List.mem_map.mpr ⟨pair, hpair, rfl⟩)
    rw [accessMerkleNode_eq] at hheld
    rcases holds_cases hheld with ⟨owner, -, hx, he⟩ | ⟨a, b, hx, he, ha, hb⟩
    · exact absurd (hread _ hx _ hy he).symm (leafInput_ne_nodeInput _ _ _)
    · rcases nodeInput_inj (hread _ hx _ hy he) with h | h
      · rw [h]
        exact ha
      · rw [h]
        exact hb
  have hy : leafInput k ∈ proofInputs rt k proof := List.mem_cons_self
  rcases holds_cases hleaf with ⟨owner, howner, hx, he⟩ | ⟨a, b, hx, he, -, -⟩
  · rw [leafInput_inj (hread _ hx _ hy he)]
    exact howner
  · exact absurd (hread _ hx _ hy he) (leafInput_ne_nodeInput _ _ _)

/-- What a proof computes is the digest of an input it hashed. -/
theorem exists_proofInput (rt : Runtime) (k : Pubkey) (proof : List (Bytes 32)) :
    ∃ x ∈ proofInputs rt k proof,
      rt.hashv x = proof.foldl (accessMerkleNode rt) (accessMerkleLeaf rt k) := by
  rcases PairTree.foldl_eq_or (accessMerkleNode rt) (accessMerkleLeaf rt k) proof with
    h | ⟨pair, hpair, h⟩
  · exact ⟨leafInput k, List.mem_cons_self, h.symm⟩
  · refine ⟨nodeInput pair.1 pair.2, ?_, ?_⟩
    · exact List.mem_cons_of_mem _ (List.mem_map.mpr ⟨pair, hpair, rfl⟩)
    · rw [h, accessMerkleNode_eq]

theorem foldl_of_verify {root : Bytes 32} (h : verifyAccessMerkleProof rt k root proof = true) :
    proof.foldl (accessMerkleNode rt) (accessMerkleLeaf rt k) = root := by
  rw [verifyAccessMerkleProof, Bool.and_eq_true] at h
  exact beq_iff_eq.mp h.2

theorem zeroDigest_of_verify_empty
    (h : verifyAccessMerkleProof rt k (new rt []).root proof = true) :
    ZeroDigest rt (treeInputs rt [] ++ proofInputs rt k proof) := by
  obtain ⟨x, hx, hd⟩ := exists_proofInput rt k proof
  exact ⟨x, List.mem_append_right _ hx, hd.trans ((foldl_of_verify h).trans root_new_nil)⟩

/-- **Nobody else is let in**, unless the hash is broken on the inputs at hand. -/
theorem mem_or_broken_of_verify
    (h : verifyAccessMerkleProof rt k (new rt owners).root proof = true) :
    k ∈ owners ∨ Collides rt (treeInputs rt owners ++ proofInputs rt k proof) ∨
      ZeroDigest rt (treeInputs rt owners ++ proofInputs rt k proof) := by
  by_cases hne : owners = []
  · subst hne
    exact .inr (.inr (zeroDigest_of_verify_empty h))
  · by_cases hcol : Collides rt (treeInputs rt owners ++ proofInputs rt k proof)
    · exact .inr (.inl hcol)
    · exact .inl (mem_of_accepted hne hcol (foldl_of_verify h))

/-- **A private vault with the tree's root on record** lets a depositor in by every proof of
the tree, and by no other means than membership or a broken hash. -/
theorem Vault.allowsDepositor_of_root {v : Vault} (hprivate : v.isPrivate = .ok true)
    (hroot : v.accessMerkleRoot = (AccessMerkleTree.new rt owners).root) :
    ((AccessMerkleTree.new rt owners).proof k = some proof → v.allowsDepositor rt k proof = true) ∧
      (v.allowsDepositor rt k proof = true →
        k ∈ owners ∨ Collides rt (treeInputs rt owners ++ proofInputs rt k proof) ∨
          ZeroDigest rt (treeInputs rt owners ++ proofInputs rt k proof)) := by
  have hcheck : v.allowsDepositor rt k proof =
      verifyAccessMerkleProof rt k (AccessMerkleTree.new rt owners).root proof := by
    rw [Vault.allowsDepositor, hprivate, hroot]
  rw [hcheck]
  exact ⟨verify_proof, mem_or_broken_of_verify⟩

end Soundness

/-- **The access tree admits exactly its members.**  For any hash, a tree of at most 32
levels has a proof of exactly the owners it was built from, and the check accepts it.
Any other proof the check accepts shows a collision or an all-zero digest among the inputs
hashed to build the tree and to check the proof; against the empty tree, the latter. -/
theorem access_tree_admits_members (rt : Runtime) (owners : List Pubkey) (k : Pubkey) :
    ((AccessMerkleTree.new rt owners).depth ≤ 32 →
      (((AccessMerkleTree.new rt owners).proof k).isSome = true ↔ k ∈ owners) ∧
      ∀ proof, (AccessMerkleTree.new rt owners).proof k = some proof →
        verifyAccessMerkleProof rt k (AccessMerkleTree.new rt owners).root proof = true) ∧
    (∀ proof, verifyAccessMerkleProof rt k (AccessMerkleTree.new rt owners).root proof = true →
      k ∈ owners ∨ Collides rt (treeInputs rt owners ++ proofInputs rt k proof) ∨
        ZeroDigest rt (treeInputs rt owners ++ proofInputs rt k proof)) ∧
    ∀ proof, verifyAccessMerkleProof rt k (AccessMerkleTree.new rt []).root proof = true →
      ZeroDigest rt (treeInputs rt [] ++ proofInputs rt k proof) := by
  refine ⟨?_, ?_, ?_⟩
  · intro hdepth
    exact ⟨AccessMerkleTree.isSome_proof hdepth, fun _ h => AccessMerkleTree.verify_proof h⟩
  · intro proof h
    exact mem_or_broken_of_verify h
  · intro proof h
    exact zeroDigest_of_verify_empty h

namespace Sample

def member (n : U8) : Pubkey := Vector.replicate 32 n

/-- The SHA-256 leaves of three members, the node over the two least, and the root. -/
def leafOne : Bytes 32 :=
  #v[242, 188, 9, 39, 109, 88, 134, 12, 172, 163, 225, 113, 229, 155, 145, 193, 66, 145, 117,
    122, 90, 57, 77, 145, 180, 214, 205, 2, 243, 234, 76, 193]

def leafTwo : Bytes 32 :=
  #v[193, 119, 23, 57, 183, 181, 119, 139, 18, 184, 16, 47, 12, 240, 236, 235, 16, 60, 50, 239,
    0, 209, 22, 160, 211, 95, 187, 128, 196, 244, 167, 15]

def leafThree : Bytes 32 :=
  #v[68, 54, 11, 75, 239, 236, 226, 192, 19, 56, 209, 39, 25, 243, 128, 50, 237, 23, 243, 173,
    208, 34, 9, 145, 91, 63, 34, 130, 148, 12, 95, 210]

def lowNode : Bytes 32 :=
  #v[29, 41, 133, 208, 212, 15, 132, 106, 155, 26, 89, 255, 125, 156, 205, 150, 209, 236, 61,
    85, 191, 74, 107, 187, 248, 208, 82, 158, 64, 3, 180, 80]

def topNode : Bytes 32 :=
  #v[180, 68, 38, 33, 28, 122, 135, 97, 83, 136, 135, 173, 217, 45, 111, 83, 22, 3, 78, 242, 147,
    39, 61, 5, 180, 109, 159, 141, 17, 68, 57, 244]

def accessRuntime : Runtime where
  findProgramAddress _ _ := (Bytes.zero 32, 0)
  hashv chunks :=
    if chunks = leafInput (member 1) then leafOne
    else if chunks = leafInput (member 2) then leafTwo
    else if chunks = leafInput (member 3) then leafThree
    else if chunks = nodeInput leafTwo leafThree then lowNode
    else if chunks = nodeInput lowNode leafOne then topNode
    else Bytes.zero 32

/-- A hash under which everybody is in the empty tree. -/
def zeroRuntime : Runtime where
  findProgramAddress _ _ := (Bytes.zero 32, 0)
  hashv _ := Bytes.zero 32

def members : List Pubkey := [member 1, member 2, member 3, member 1]

end Sample

/-- Three members, one given twice: the promoted leaf has a proof of one node. -/
theorem access_tree_admits_members_promoted :
    (((AccessMerkleTree.new Sample.accessRuntime Sample.members).proof (Sample.member 1)).isSome
        = true ↔ Sample.member 1 ∈ Sample.members) ∧
      verifyAccessMerkleProof Sample.accessRuntime (Sample.member 1)
        (AccessMerkleTree.new Sample.accessRuntime Sample.members).root [Sample.lowNode] = true ∧
      (Sample.member 1 ∈ Sample.members ∨
        Collides Sample.accessRuntime (treeInputs Sample.accessRuntime Sample.members ++
          proofInputs Sample.accessRuntime (Sample.member 1) [Sample.lowNode]) ∨
        ZeroDigest Sample.accessRuntime (treeInputs Sample.accessRuntime Sample.members ++
          proofInputs Sample.accessRuntime (Sample.member 1) [Sample.lowNode])) ∧
      ZeroDigest Sample.zeroRuntime (treeInputs Sample.zeroRuntime [] ++
        proofInputs Sample.zeroRuntime (Sample.member 1) []) := by
  have hdepth : (AccessMerkleTree.new Sample.accessRuntime Sample.members).depth ≤ 32 := by
    decide +kernel
  have hproof : (AccessMerkleTree.new Sample.accessRuntime Sample.members).proof (Sample.member 1)
      = some [Sample.lowNode] := by
    decide +kernel
  obtain ⟨hmember, hsound, -⟩ :=
    access_tree_admits_members Sample.accessRuntime Sample.members (Sample.member 1)
  obtain ⟨hiff, haccept⟩ := hmember hdepth
  obtain ⟨-, -, hempty⟩ := access_tree_admits_members Sample.zeroRuntime [] (Sample.member 1)
  exact ⟨hiff, haccept _ hproof, hsound _ (haccept _ hproof), hempty [] (by decide +kernel)⟩

/-- **The tree is that of a set.**  Lists with the same owners, in any order and with any
repetition, have one root and one proof for every owner, whatever the hash. -/
theorem access_tree_of_set (rt : Runtime) (owners owners' : List Pubkey)
    (h : ∀ owner, owner ∈ owners ↔ owner ∈ owners') :
    (AccessMerkleTree.new rt owners).root = (AccessMerkleTree.new rt owners').root ∧
      ∀ k, (AccessMerkleTree.new rt owners).proof k =
        (AccessMerkleTree.new rt owners').proof k := by
  have htree : AccessMerkleTree.new rt owners = AccessMerkleTree.new rt owners' :=
    AccessMerkleTree.new_congr h
  refine ⟨congrArg AccessMerkleTree.root htree, ?_⟩
  intro k
  rw [htree]

/-- Three members in another order, under a hash where all leaves collide. -/
theorem access_tree_of_set_colliding :
    (AccessMerkleTree.new Sample.zeroRuntime Sample.members).root =
        (AccessMerkleTree.new Sample.zeroRuntime
          [Sample.member 3, Sample.member 2, Sample.member 1]).root ∧
      ∀ k, (AccessMerkleTree.new Sample.zeroRuntime Sample.members).proof k =
        (AccessMerkleTree.new Sample.zeroRuntime
          [Sample.member 3, Sample.member 2, Sample.member 1]).proof k := by
  apply access_tree_of_set
  intro owner
  simp only [Sample.members, List.mem_cons, List.not_mem_nil, or_false]
  tauto

end Roshi
