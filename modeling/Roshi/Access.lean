import Roshi.Runtime

/-!
# Vault access lists

`access.rs`: the directionless Merkle proof a private vault asks of a depositor.
-/

namespace Roshi

section Access

variable (rt : Runtime)

/-- `b"roshi:vault-access:leaf:v1"`. -/
def ACCESS_LEAF_DOMAIN : List U8 :=
  [114, 111, 115, 104, 105, 58, 118, 97, 117, 108, 116, 45, 97, 99, 99, 101, 115, 115, 58, 108,
    101, 97, 102, 58, 118, 49]

/-- `b"roshi:vault-access:node:v1"`. -/
def ACCESS_NODE_DOMAIN : List U8 :=
  [114, 111, 115, 104, 105, 58, 118, 97, 117, 108, 116, 45, 97, 99, 99, 101, 115, 115, 58, 110,
    111, 100, 101, 58, 118, 49]

def MAX_ACCESS_PROOF_LEN : Nat := 32

def accessMerkleLeaf (owner : Pubkey) : Bytes 32 := rt.hashv [ACCESS_LEAF_DOMAIN, owner.toList]

/-- The two children are hashed in byte order, so a proof carries no directions. -/
def accessMerkleNode (left right : Bytes 32) : Bytes 32 :=
  if left.toList ≤ right.toList then rt.hashv [ACCESS_NODE_DOMAIN, left.toList, right.toList]
  else rt.hashv [ACCESS_NODE_DOMAIN, right.toList, left.toList]

def verifyAccessMerkleProof (owner : Pubkey) (merkleRoot : Bytes 32) (proof : List (Bytes 32)) :
    Bool :=
  proof.length ≤ MAX_ACCESS_PROOF_LEN &&
    proof.foldl (accessMerkleNode rt) (accessMerkleLeaf rt owner) == merkleRoot

end Access

end Roshi
