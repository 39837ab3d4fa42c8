import CoinCync.Block
import CoinCync.Lib.Bytes

/-!
# The data a transaction signature is about

`Transaction::compute_signing_hash` of `transaction/types.rs` at the level of bytes: a tag, the fields
one after another, lists and byte strings behind a count of four bytes, and a byte for whether there
is a lock height. Each part is told apart in front of whatever follows it, so the parts are read off
one by one.
-/

namespace CoinCync.Wire

open Bytes List

/-- 32 bytes. -/
abbrev Bytes32 := { l : List UInt8 // l.length = 32 }

/-- A ring member. -/
structure RingMemberRef where
  publicKey : Bytes32
  commitment : Bytes32

/-- A ring signature. -/
structure ClsagSignature where
  keyImage : Bytes32
  commitmentImage : Bytes32
  c1 : Bytes32
  responses : List Bytes32

/-- What is signed of an input. -/
structure SigningInputView where
  keyImage : Bytes32
  pseudoOutputCommitment : Bytes32
  ringMembers : List RingMemberRef

/-- The view of an input is `from_txinput`. -/
structure TxInput extends SigningInputView where
  signature : ClsagSignature

/-- An output with all its bytes. -/
structure TxOutput where
  stealthAddress : Bytes32
  txPublicKey : Bytes32
  commitment : Bytes32
  encryptedAmount : List UInt8
  viewTag : UInt8
  lockHeight : Option UInt64
  encryptedMemo : List UInt8

/-- A transaction with all its bytes. -/
structure Transaction where
  version : UInt8
  txType : TxType
  inputs : List TxInput
  outputs : List TxOutput
  fee : UInt64
  rangeProof : List UInt8
  extra : List UInt8

/-- `tx_type as u8`. -/
def typeByte : TxType → UInt8
  | .coinbase => 0
  | .transfer => 1
  | .churn => 2
  | .shielded => 3

/-- `TX_SIGN_DOMAIN_TAG`. -/
def txSignDomainTag : List UInt8 := "coincync/tx-sign/v1".toUTF8.toList

/-- A length `as u32`, in `to_le_bytes`. -/
def count (n : ℕ) : List UInt8 := toLe 4 n

/-- The bytes of a ring member. -/
def RingMemberRef.data (m : RingMemberRef) : List UInt8 := m.publicKey.1 ++ m.commitment.1

/-- The bytes of an input. -/
def SigningInputView.data (i : SigningInputView) : List UInt8 :=
  i.keyImage.1 ++ i.pseudoOutputCommitment.1 ++ count i.ringMembers.length ++
    i.ringMembers.flatMap RingMemberRef.data

/-- The bytes of a lock height. -/
def lockData : Option UInt64 → List UInt8
  | some h => 1 :: toLe 8 h.toNat
  | none => [0]

/-- The bytes of an output. -/
def TxOutput.data (o : TxOutput) : List UInt8 :=
  o.stealthAddress.1 ++ o.txPublicKey.1 ++ o.commitment.1 ++
    count o.encryptedAmount.length ++ o.encryptedAmount ++ [o.viewTag] ++ lockData o.lockHeight ++
    count o.encryptedMemo.length ++ o.encryptedMemo

/-- What follows the inputs. -/
def Transaction.outputData (tx : Transaction) : List UInt8 :=
  count tx.outputs.length ++ tx.outputs.flatMap TxOutput.data ++
    count tx.rangeProof.length ++ tx.rangeProof ++ count tx.extra.length ++ tx.extra

/-- What `compute_signing_hash` hands to the hash. -/
def Transaction.signingData (tx : Transaction) : List UInt8 :=
  txSignDomainTag ++ [tx.version, typeByte tx.txType] ++ toLe 8 tx.fee.toNat ++
    count tx.inputs.length ++ (tx.inputs.map (·.toSigningInputView)).flatMap SigningInputView.data ++
    tx.outputData

/-- Lists and byte strings have a count of four bytes. -/
structure Transaction.Counted (tx : Transaction) : Prop where
  inputs : tx.inputs.length < 2 ^ 32
  rings : ∀ i ∈ tx.inputs, i.ringMembers.length < 2 ^ 32
  outputs : tx.outputs.length < 2 ^ 32
  amounts : ∀ o ∈ tx.outputs, o.encryptedAmount.length < 2 ^ 32
  memos : ∀ o ∈ tx.outputs, o.encryptedMemo.length < 2 ^ 32
  rangeProof : tx.rangeProof.length < 2 ^ 32
  extra : tx.extra.length < 2 ^ 32

/-- Types have their own bytes. -/
lemma typeByte_injective : Function.Injective typeByte := by
  intro a b h
  cases a <;> cases b <;> simp [typeByte] at h ⊢

/-! ## Reading the parts off the front -/

section

variable {α : Type} {f : α → List UInt8} {l l' : List α} {r s : List UInt8}

/-- Elements that are told apart are told apart in a list. -/
lemma flatMap_append_inj (hf : ∀ a ∈ l, ∀ a' ∈ l', ∀ r s, f a ++ r = f a' ++ s → a = a' ∧ r = s)
    (hlen : l.length = l'.length) (h : l.flatMap f ++ r = l'.flatMap f ++ s) : l = l' ∧ r = s := by
  induction l generalizing l' with
  | nil =>
    obtain rfl := length_eq_zero_iff.mp hlen.symm
    exact ⟨rfl, h⟩
  | cons a l ih =>
    obtain ⟨a', l', rfl⟩ := exists_cons_of_length_eq_add_one hlen.symm
    rw [flatMap_cons, flatMap_cons, append_assoc, append_assoc] at h
    obtain ⟨rfl, hrest⟩ := hf a mem_cons_self a' mem_cons_self _ _ h
    obtain ⟨rfl, hend⟩ := ih (fun x hx y hy => hf x (mem_cons_of_mem _ hx) y
      (mem_cons_of_mem _ hy)) (Nat.succ.inj hlen) hrest
    exact ⟨rfl, hend⟩

lemma count_append_inj (hn : n < 2 ^ 32) (hk : k < 2 ^ 32) (h : count n ++ r = count k ++ s) :
    n = k ∧ r = s := by
  obtain ⟨hcount, h⟩ := append_inj h (by rw [count, count, length_toLe, length_toLe])
  have hof := congrArg ofLe hcount
  rw [count, count, ofLe_toLe (by simpa using hn), ofLe_toLe (by simpa using hk)] at hof
  exact ⟨hof, h⟩

lemma counted_inj (hl : l.length < 2 ^ 32) (hl' : l'.length < 2 ^ 32)
    (hf : ∀ a ∈ l, ∀ a' ∈ l', ∀ r s, f a ++ r = f a' ++ s → a = a' ∧ r = s)
    (h : count l.length ++ (l.flatMap f ++ r) = count l'.length ++ (l'.flatMap f ++ s)) :
    l = l' ∧ r = s := by
  obtain ⟨hlen, h⟩ := count_append_inj hl hl' h
  exact flatMap_append_inj hf hlen h

lemma bytes_inj (hb : b.length < 2 ^ 32) (hb' : b'.length < 2 ^ 32)
    (h : count b.length ++ (b ++ r) = count b'.length ++ (b' ++ s)) : b = b' ∧ r = s := by
  obtain ⟨hlen, h⟩ := count_append_inj hb hb' h
  exact append_inj h hlen

lemma bytes32_inj {a' : Bytes32} (h : a.1 ++ r = a'.1 ++ s) : a = a' ∧ r = s := by
  obtain ⟨ha, h⟩ := append_inj h (a.2.trans a'.2.symm)
  exact ⟨Subtype.ext ha, h⟩

lemma u64_inj {a' : UInt64} (h : toLe 8 a.toNat ++ r = toLe 8 a'.toNat ++ s) : a = a' ∧ r = s := by
  obtain ⟨ha, h⟩ := append_inj h (by rw [length_toLe, length_toLe])
  have hof := congrArg ofLe ha
  rw [ofLe_toLe a.toNat_lt, ofLe_toLe a'.toNat_lt] at hof
  exact ⟨UInt64.toNat_inj.mp hof, h⟩

lemma lockData_inj {a' : Option UInt64} (h : lockData a ++ r = lockData a' ++ s) :
    a = a' ∧ r = s := by
  cases a with
  | none =>
    cases a' with
    | none => exact ⟨rfl, tail_eq_of_cons_eq h⟩
    | some y => simp [lockData] at h
  | some x =>
    cases a' with
    | none => simp [lockData] at h
    | some y =>
      obtain ⟨rfl, hrest⟩ := u64_inj (tail_eq_of_cons_eq h)
      exact ⟨rfl, hrest⟩

lemma RingMemberRef.data_inj {m' : RingMemberRef} (h : m.data ++ r = m'.data ++ s) :
    m = m' ∧ r = s := by
  simp only [data, append_assoc] at h
  obtain ⟨hkey, h⟩ := bytes32_inj h
  obtain ⟨hcommitment, h⟩ := bytes32_inj h
  cases m
  simp_all

lemma SigningInputView.data_inj {j : SigningInputView} (hi : i.ringMembers.length < 2 ^ 32)
    (hj : j.ringMembers.length < 2 ^ 32) (h : i.data ++ r = j.data ++ s) : i = j ∧ r = s := by
  simp only [data, append_assoc] at h
  obtain ⟨himage, h⟩ := bytes32_inj h
  obtain ⟨hpseudo, h⟩ := bytes32_inj h
  obtain ⟨hring, h⟩ := counted_inj hi hj (fun _ _ _ _ _ _ => RingMemberRef.data_inj) h
  cases i
  simp_all

lemma TxOutput.data_inj {o' : TxOutput} (ho : o.encryptedAmount.length < 2 ^ 32)
    (ho' : o'.encryptedAmount.length < 2 ^ 32) (hm : o.encryptedMemo.length < 2 ^ 32)
    (hm' : o'.encryptedMemo.length < 2 ^ 32) (h : o.data ++ r = o'.data ++ s) : o = o' ∧ r = s := by
  simp only [data, append_assoc] at h
  obtain ⟨haddress, h⟩ := bytes32_inj h
  obtain ⟨hkey, h⟩ := bytes32_inj h
  obtain ⟨hcommitment, h⟩ := bytes32_inj h
  obtain ⟨hamount, h⟩ := bytes_inj ho ho' h
  obtain ⟨htag, h⟩ := append_inj h rfl
  obtain ⟨hlock, h⟩ := lockData_inj h
  obtain ⟨hmemo, h⟩ := bytes_inj hm hm' h
  cases o
  simp_all

end

variable {tx tx' : Transaction}

/-- The fields are read off, the inputs up to their signatures. -/
lemma signingData_inj (htx : tx.Counted) (htx' : tx'.Counted) (h : tx.signingData = tx'.signingData) :
    tx.version = tx'.version ∧ tx.txType = tx'.txType ∧ tx.fee = tx'.fee ∧
      tx.inputs.map (·.toSigningInputView) = tx'.inputs.map (·.toSigningInputView) ∧
      tx.outputData = tx'.outputData := by
  simp only [Transaction.signingData, append_assoc, append_cancel_left_eq] at h
  obtain ⟨hhead, h⟩ := append_inj h rfl
  obtain ⟨hfee, h⟩ := u64_inj h
  have hrings : ∀ v ∈ tx.inputs.map (·.toSigningInputView), v.ringMembers.length < 2 ^ 32 :=
    forall_mem_map.mpr htx.rings
  have hrings' : ∀ v ∈ tx'.inputs.map (·.toSigningInputView), v.ringMembers.length < 2 ^ 32 :=
    forall_mem_map.mpr htx'.rings
  obtain ⟨hviews, h⟩ := counted_inj (by simpa using htx.inputs) (by simpa using htx'.inputs)
    (fun i hi j hj _ _ => SigningInputView.data_inj (hrings i hi) (hrings' j hj))
    (by simpa only [length_map] using h)
  simp only [cons.injEq, and_true] at hhead
  exact ⟨hhead.1, typeByte_injective hhead.2, hfee, hviews, h⟩

/-- Transactions with the same signing data differ at most in their ring signatures. -/
theorem signingData_injective (htx : tx.Counted) (htx' : tx'.Counted)
    (h : tx.signingData = tx'.signingData) :
    tx.version = tx'.version ∧ tx.txType = tx'.txType ∧
      tx.inputs.map (·.toSigningInputView) = tx'.inputs.map (·.toSigningInputView) ∧
      tx.outputs = tx'.outputs ∧ tx.fee = tx'.fee ∧ tx.rangeProof = tx'.rangeProof ∧
      tx.extra = tx'.extra := by
  obtain ⟨hversion, htype, hfee, hviews, h⟩ := signingData_inj htx htx' h
  simp only [Transaction.outputData, append_assoc] at h
  obtain ⟨houtputs, h⟩ := counted_inj htx.outputs htx'.outputs
    (fun o ho o' ho' r s => TxOutput.data_inj (htx.amounts o ho) (htx'.amounts o' ho')
      (htx.memos o ho) (htx'.memos o' ho')) h
  obtain ⟨hproof, h⟩ := bytes_inj htx.rangeProof htx'.rangeProof h
  have hextra : tx.extra = tx'.extra ∧ ([] : List UInt8) = [] :=
    bytes_inj htx.extra htx'.extra (by simpa using h)
  exact ⟨hversion, htype, hviews, houtputs, hfee, hproof, hextra.1⟩

/-- 32 zeros. -/
def zero32 : Bytes32 := ⟨List.replicate 32 0, rfl⟩

/-- An input with a ring of two. -/
def signedInput (responses : List Bytes32) : TxInput :=
  ⟨⟨zero32, zero32, [⟨zero32, zero32⟩, ⟨zero32, zero32⟩]⟩, ⟨zero32, zero32, zero32, responses⟩⟩

/-- A transaction whose output has a lock height and a memo. -/
def signedTx (responses : List Bytes32) : Transaction :=
  ⟨1, .transfer, [signedInput responses],
    [⟨zero32, zero32, zero32, [1, 2, 3, 4, 5, 6, 7, 8], 9, some 120, [10, 11]⟩], 7, [3], []⟩

lemma signedTx_counted (responses : List Bytes32) : (signedTx responses).Counted := by
  constructor <;> simp [signedTx, signedInput]

/-- The same data is signed whatever the signature is. -/
theorem signingData_injective_resigned :
    (signedTx []).signingData = (signedTx [zero32]).signingData ∧
      (signedTx []).inputs.map (·.toSigningInputView)
        = (signedTx [zero32]).inputs.map (·.toSigningInputView) ∧
      (signedTx []).outputs = (signedTx [zero32]).outputs := by
  have hsame : (signedTx []).signingData = (signedTx [zero32]).signingData := rfl
  obtain ⟨-, -, hinputs, houtputs, -⟩ :=
    signingData_injective (signedTx_counted _) (signedTx_counted _) hsame
  exact ⟨hsame, hinputs, houtputs⟩

end CoinCync.Wire
