import CoinCync.Books
import CoinCync.Lib.Merkle
import Mathlib.Data.Nat.Pairing

/-!
# A header determines its body

`merkle_root` pairs an odd node with itself, so lists of different lengths can share a root. The
check for duplicate transaction hashes is what rules the second body out.
-/

namespace CoinCync

open Merkle

variable {E : Env} {W : Validator E} {H : Merkle.Hasher Hash} {b b' : Block}

/-- `merkle_root`, over `hash_concat` with tag `0x00` for leaves and `0x01` for nodes. -/
def merkleRoot (H : Merkle.Hasher Hash) : List Hash → Hash
  | [] => 0
  | [h] => H.leaf h
  | hashes => (top H (hashes.map H.leaf)).headD 0

/-- It is the root of the library. -/
lemma merkleRoot_eq_root (hashes : List Hash) : merkleRoot H hashes = root H 0 hashes := by
  match hashes with
  | [] | [h] => simp [merkleRoot, root, top_of_le]
  | _ :: _ :: _ => rfl

/-- The odd node is paired with itself, so that repeating it changes nothing. -/
example (a b c : Hash) : merkleRoot H [a, b, c] = merkleRoot H [a, b, c, c] := by
  simp [merkleRoot, top, levelUp]

/-- `check_block_merkle_root`. -/
def merkleRootErrors (W : Validator E) (b : Block) : List BlockError :=
  expect (W.merkleRoot (b.transactions.map E.txHash) = b.header.txRoot) .merkleRoot

/-- The hashes of two blocks' transactions do not collide. -/
def HashedApart (E : Env) (b b' : Block) : Prop :=
  ∀ tx ∈ b.transactions, ∀ tx' ∈ b'.transactions, E.txHash tx = E.txHash tx' → tx = tx'

/-- Without collisions equal hashes are of equal lists. -/
lemma transactions_eq_of_hashes (hapart : HashedApart E b b')
    (h : b.transactions.map E.txHash = b'.transactions.map E.txHash) :
    b.transactions = b'.transactions := by
  unfold HashedApart at hapart
  generalize b.transactions = l at h hapart
  generalize b'.transactions = l' at h hapart
  induction l generalizing l' with
  | nil => exact (List.map_eq_nil_iff.mp h.symm).symm
  | cons tx l ih =>
    cases l' with
    | nil => simp at h
    | cons tx' l' =>
      obtain ⟨hhead, htail⟩ := List.cons.inj h
      rw [hapart tx List.mem_cons_self tx' List.mem_cons_self hhead, ih l' htail ?_]
      intro y hy y' hy'
      exact hapart y (List.mem_cons_of_mem _ hy) y' (List.mem_cons_of_mem _ hy')

lemma transactions_eq_of_root (hH : H.CollisionFree 0) (hapart : HashedApart E b b')
    (hnd : (b.transactions.map E.txHash).Nodup) (hnd' : (b'.transactions.map E.txHash).Nodup)
    (hroot : merkleRoot H (b.transactions.map E.txHash) = merkleRoot H (b'.transactions.map E.txHash)) :
    b.transactions = b'.transactions := by
  rw [merkleRoot_eq_root, merkleRoot_eq_root] at hroot
  exact transactions_eq_of_hashes hapart (root_injective hH hnd hnd' hroot)

/-- Two blocks with one header that pass the checks for the merkle root and for duplicate hashes
have one body. -/
theorem header_determines_body (hH : H.CollisionFree 0) (hW : W.merkleRoot = merkleRoot H)
    (hapart : HashedApart E b b') (hheader : b.header = b'.header)
    (hroot : merkleRootErrors W b = []) (hroot' : merkleRootErrors W b' = [])
    (hdup : duplicateTxHashErrors E b = []) (hdup' : duplicateTxHashErrors E b' = []) :
    b.transactions = b'.transactions := by
  unfold merkleRootErrors at hroot hroot'
  rw [expect_eq_nil, hW] at hroot hroot'
  unfold duplicateTxHashErrors at hdup hdup'
  rw [List.map_eq_nil_iff, Check.repeats_eq_nil] at hdup hdup'
  exact transactions_eq_of_root hH hapart hdup hdup' (by rw [hroot, hroot', hheader])

/-- Two accepted blocks with one header, in whatever contexts, are one. -/
theorem block_eq_of_valid (hH : H.CollisionFree 0) (hW : W.merkleRoot = merkleRoot H)
    (hapart : HashedApart E b b') (hheader : b.header = b'.header)
    (hb : validateBlockCtx W b parent u checkpoint contextual = [])
    (hb' : validateBlockCtx W b' parent' u' checkpoint' contextual' = []) : b = b' := by
  have hroot := merkleRoot_of_valid hb
  have hroot' := merkleRoot_of_valid hb'
  rw [hW] at hroot hroot'
  have htxs := transactions_eq_of_root hH hapart (crossTxErrors_eq_nil.mp (crossTxErrors_of_valid hb)).1
    (crossTxErrors_eq_nil.mp (crossTxErrors_of_valid hb')).1 (by rw [hroot, hroot', hheader])
  cases b
  simp_all

/-! ## A hash without collisions -/

/-- Tagged pairs as numbers. -/
def pairHasher : Merkle.Hasher ℕ where
  leaf a := 2 * a + 1
  node a b := 2 * Nat.pair a b + 2

/-- Pairs do not collide. -/
lemma pairHasher_collisionFree : pairHasher.CollisionFree 0 where
  leaf_inj h := by
    simp only [pairHasher] at h
    omega
  node_inj h := by
    simp only [pairHasher] at h
    exact Nat.pair_eq_pair.mp (by omega)
  leaf_ne_node a b c := by
    simp only [pairHasher]
    omega
  leaf_ne_zero a := by
    simp only [pairHasher]
    omega
  node_ne_zero a b := by
    simp only [pairHasher]
    omega

/-- The validator of the samples with a real root. -/
def pairValidator (E : Env) : Validator E :=
  { sampleValidator E with merkleRoot := merkleRoot pairHasher }

/-- A coinbase and a shielded transaction without inputs. -/
def shieldedBody : List Transaction :=
  [coinbaseTx 1 [], { txType := .shielded, extra := .bytes 2 }]

/-- A block with `shieldedBody` under its own root. -/
def shieldedBlock : Block where
  header := {
    height := 1
    prevHash := 0
    txRoot := merkleRoot pairHasher (shieldedBody.map (sampleEnv .regtest 100).txHash)
    target := 0 }
  transactions := shieldedBody

/-- The block passes both checks, and no other body does under its header. -/
theorem header_determines_body_shielded :
    merkleRootErrors (pairValidator (sampleEnv .regtest 100)) shieldedBlock = [] ∧
      duplicateTxHashErrors (sampleEnv .regtest 100) shieldedBlock = [] ∧
      HashedApart (sampleEnv .regtest 100) shieldedBlock shieldedBlock ∧
      ∀ body, HashedApart (sampleEnv .regtest 100) ⟨shieldedBlock.header, body⟩ shieldedBlock →
        merkleRootErrors (pairValidator (sampleEnv .regtest 100)) ⟨shieldedBlock.header, body⟩ = [] →
        duplicateTxHashErrors (sampleEnv .regtest 100) ⟨shieldedBlock.header, body⟩ = [] →
        body = shieldedBody := by
  have hroot : merkleRootErrors (pairValidator (sampleEnv .regtest 100)) shieldedBlock = [] :=
    expect_eq_nil.mpr rfl
  have hdup : duplicateTxHashErrors (sampleEnv .regtest 100) shieldedBlock = [] := by decide
  have hapart : HashedApart (sampleEnv .regtest 100) shieldedBlock shieldedBlock := by
    unfold HashedApart
    decide
  refine ⟨hroot, hdup, hapart, fun body hbody hroot' hdup' => ?_⟩
  exact header_determines_body pairHasher_collisionFree rfl hbody rfl hroot' hroot hdup' hdup

end CoinCync
