import CoinCync.Lib.Codec

/-!
# Bitcoin transactions

The transactions a swap locks and spends bitcoin with, and their consensus encoding: the form with
witnesses behind a zero input count and a flag, the form without them otherwise.
-/

namespace CoinCync.AtomicSwap

open List Option

/-- An output spent. -/
structure OutPoint where
  txid : ℕ
  vout : UInt32
deriving DecidableEq

/-- An input. -/
structure TxIn where
  previousOutput : OutPoint
  scriptSig : List UInt8
  sequence : UInt32
  witness : List (List UInt8)
deriving DecidableEq

/-- An output. -/
structure TxOut where
  value : UInt64
  scriptPubkey : List UInt8
deriving DecidableEq

/-- A transaction. -/
structure Transaction where
  version : UInt32
  lockTime : UInt32
  input : List TxIn
  output : List TxOut
deriving DecidableEq

/-! ## Consensus encoding -/

open Codec

/-- Four bytes. -/
def u32 : Codec UInt32 := (le 4).map UInt32.ofNat UInt32.toNat fun _ => UInt32.ofNat_toNat

/-- Eight bytes. -/
def u64 : Codec UInt64 := (le 8).map UInt64.ofNat UInt64.toNat fun _ => UInt64.ofNat_toNat

lemma u32_fits (a : UInt32) : u32.fits a := a.toNat_lt

lemma u64_fits (a : UInt64) : u64.fits a := a.toNat_lt

/-- An outpoint. -/
def outPoint : Codec OutPoint :=
  ((le 32).pair u32).map (fun p => ⟨p.1, p.2⟩) (fun o => (o.txid, o.vout)) fun _ => rfl

/-- What stands for an input outside the witness. -/
abbrev BareInput := OutPoint × List UInt8 × UInt32

/-- An input without its witness. -/
def bareInput : Codec BareInput := outPoint.pair (varBytes.pair u32)

/-- An output. -/
def txOut : Codec TxOut :=
  (u64.pair varBytes).map (fun p => ⟨p.1, p.2⟩) (fun o => (o.value, o.scriptPubkey)) fun _ => rfl

/-- A witness. -/
def witness : Codec (List (List UInt8)) := vec varBytes

namespace TxIn

/-- Without the witness. -/
def bare (i : TxIn) : BareInput := (i.previousOutput, i.scriptSig, i.sequence)

/-- With it again. -/
def ofBare (b : BareInput) (witness : List (List UInt8)) : TxIn := ⟨b.1, b.2.1, b.2.2, witness⟩

@[simp] lemma ofBare_bare (i : TxIn) : ofBare i.bare i.witness = i := rfl

end TxIn

namespace Transaction

/-- Whether the form with witnesses is used. -/
def usesSegwit (tx : Transaction) : Bool :=
  tx.input.any (fun i => !i.witness.isEmpty) || tx.input.isEmpty

/-- Consensus encoding. -/
def serialize (tx : Transaction) : List UInt8 :=
  let inputs := (vec bareInput).write (tx.input.map TxIn.bare)
  let outputs := (vec txOut).write tx.output
  if tx.usesSegwit then
    u32.write tx.version ++ (0 :: 1 :: (inputs ++ (outputs ++
      ((tx.input.map TxIn.witness).flatMap witness.write ++ u32.write tx.lockTime))))
  else u32.write tx.version ++ (inputs ++ (outputs ++ u32.write tx.lockTime))

/-- The part behind the flag. -/
def readSegwit (version : UInt32) (l : List UInt8) : Option (Transaction × List UInt8) :=
  ((vec bareInput).read l).bind fun i =>
    ((vec txOut).read i.2).bind fun o =>
      ((witness.many i.1.length).read o.2).bind fun w =>
        if i.1 ≠ [] ∧ w.1.all List.isEmpty then none
        else (u32.read w.2).map fun t => (⟨version, t.1, List.zipWith TxIn.ofBare i.1 w.1, o.1⟩, t.2)

/-- The rest of the form without witnesses. -/
def readLegacy (version : UInt32) (inputs : List BareInput) (l : List UInt8) :
    Option (Transaction × List UInt8) :=
  ((vec txOut).read l).bind fun o =>
    (u32.read o.2).map fun t => (⟨version, t.1, inputs.map (TxIn.ofBare · []), o.1⟩, t.2)

/-- Its decoding. -/
def read (l : List UInt8) : Option (Transaction × List UInt8) :=
  (u32.read l).bind fun v =>
    ((vec bareInput).read v.2).bind fun i =>
      if i.1 = [] then if i.2.head? = some 1 then readSegwit v.1 i.2.tail else none
      else readLegacy v.1 i.1 i.2

/-- All of the bytes are one transaction. -/
def deserialize (l : List UInt8) : Option Transaction :=
  match read l with
  | some (tx, []) => some tx
  | _ => none

/-- The encoding has room for the transaction. -/
structure Fits (tx : Transaction) : Prop where
  inputs : (vec bareInput).fits (tx.input.map TxIn.bare)
  outputs : (vec txOut).fits tx.output
  witnesses : ∀ i ∈ tx.input, witness.fits i.witness

variable {tx : Transaction}
variable {version lockTime : UInt32}

lemma zipWith_ofBare (is : List TxIn) :
    List.zipWith TxIn.ofBare (is.map TxIn.bare) (is.map TxIn.witness) = is := by
  induction is with
  | nil => rfl
  | cons i is ih => rw [map_cons, map_cons, zipWith_cons_cons, ih, TxIn.ofBare_bare]

lemma readSegwit_serialized (h : tx.Fits) (hw : tx.usesSegwit = true) (rest : List UInt8) :
    readSegwit tx.version ((vec bareInput).write (tx.input.map TxIn.bare) ++
      ((vec txOut).write tx.output ++ ((tx.input.map TxIn.witness).flatMap witness.write ++
        (u32.write tx.lockTime ++ rest)))) = some (tx, rest) := by
  have hmany : (witness.many (tx.input.map TxIn.bare).length).fits (tx.input.map TxIn.witness) := by
    refine ⟨by simp, fun w hw => ?_⟩
    obtain ⟨i, hi, rfl⟩ := mem_map.mp hw
    exact h.witnesses i hi
  have hwrite : (tx.input.map TxIn.witness).flatMap witness.write
      = (witness.many (tx.input.map TxIn.bare).length).write (tx.input.map TxIn.witness) := rfl
  have hsome : ¬ (tx.input.map TxIn.bare ≠ [] ∧
      (tx.input.map TxIn.witness).all isEmpty = true) := by
    rintro ⟨hne, hall⟩
    simp only [usesSegwit, Bool.or_eq_true, List.any_eq_true, List.isEmpty_iff] at hw
    simp only [ne_eq, map_eq_nil_iff] at hne
    obtain ⟨i, hi, hwit⟩ := hw.resolve_right hne
    have := all_eq_true.mp hall i.witness (mem_map_of_mem hi)
    simp [this] at hwit
  rw [readSegwit, (vec bareInput).read_write h.inputs, bind_some, (vec txOut).read_write h.outputs,
    bind_some, hwrite, (witness.many _).read_write hmany, bind_some, if_neg hsome,
    u32.read_write (u32_fits _), map_some, zipWith_ofBare]

lemma readLegacy_serialized (h : tx.Fits) (hw : tx.usesSegwit = false) (rest : List UInt8) :
    readLegacy tx.version (tx.input.map TxIn.bare)
      ((vec txOut).write tx.output ++ (u32.write tx.lockTime ++ rest)) = some (tx, rest) := by
  simp only [usesSegwit, Bool.or_eq_false_iff, List.any_eq_false, Bool.not_eq_true,
    Bool.not_eq_false', List.isEmpty_iff] at hw
  have hbare : (tx.input.map TxIn.bare).map (TxIn.ofBare · []) = tx.input := by
    rw [List.map_map]
    refine (map_congr_left fun i hi => ?_).trans (map_id _)
    show (⟨i.previousOutput, i.scriptSig, i.sequence, []⟩ : TxIn) = i
    rw [← hw.1 i hi]
  unfold readLegacy
  rw [(vec txOut).read_write h.outputs, bind_some, u32.read_write (u32_fits _), map_some, hbare]

/-- What is written is read. -/
lemma read_serialize (h : tx.Fits) (rest : List UInt8) :
    read (tx.serialize ++ rest) = some (tx, rest) := by
  unfold read serialize
  cases hw : tx.usesSegwit with
  | true =>
    have hmarker : ∀ l : List UInt8, (vec bareInput).read (0 :: l) = some ([], l) := fun l => rfl
    simp only [if_true, append_assoc, cons_append]
    rw [u32.read_write (u32_fits _), bind_some, hmarker]
    exact readSegwit_serialized h hw rest
  | false =>
    have hne : tx.input.map TxIn.bare ≠ [] := by
      intro hnil
      simp [usesSegwit, map_eq_nil_iff.mp hnil] at hw
    simp only [Bool.false_eq_true, if_false, append_assoc]
    rw [u32.read_write (u32_fits _), bind_some, (vec bareInput).read_write h.inputs,
      bind_some, if_neg hne]
    exact readLegacy_serialized h hw rest

/-! A transaction with one input, one output and a short witness. -/

lemma fits_single (htxid : i.previousOutput.txid < 256 ^ 32) (hsig : i.scriptSig = [])
    (hcount : i.witness.length ≤ 4) (hwit : ∀ w ∈ i.witness, w.length ≤ 200)
    (hout : o.scriptPubkey.length ≤ 42) : Fits ⟨version, lockTime, [i], [o]⟩ where
  inputs := by
    refine vec_fits (by simp) fun b hb => ?_
    obtain rfl := mem_singleton.mp hb
    refine ⟨⟨htxid, u32_fits _⟩, varBytes_fits ?_, u32_fits _⟩
    show i.scriptSig.length < _
    rw [hsig]
    decide
  outputs := by
    refine vec_fits (by simp) fun b hb => ?_
    obtain rfl := mem_singleton.mp hb
    refine ⟨u64_fits _, varBytes_fits ?_⟩
    show b.scriptPubkey.length < _
    omega
  witnesses j hj := by
    obtain rfl := mem_singleton.mp hj
    exact vec_fits (by omega) fun w hw => varBytes_fits (by have := hwit w hw; omega)

lemma length_serialize_single_le (hsig : i.scriptSig = []) (hcount : i.witness.length ≤ 4)
    (hwit : ∀ w ∈ i.witness, w.length ≤ 200) (hout : o.scriptPubkey.length ≤ 42) :
    (serialize ⟨version, lockTime, [i], [o]⟩).length ≤ 2000 := by
  have hu32 : ∀ a : UInt32, (u32.write a).length = 4 := fun a => Bytes.length_toLe 4 _
  have hin : ((vec bareInput).write [i.bare]).length ≤ 9 + 1 * 60 := by
    refine length_vec_write_le fun b hb => ?_
    obtain rfl := mem_singleton.mp hb
    have hscript := length_varBytes_write_le i.scriptSig
    show ((Bytes.toLe 32 _ ++ u32.write _) ++ (varBytes.write i.scriptSig ++ u32.write _)).length ≤ 60
    simp only [length_append, Bytes.length_toLe, hu32]
    rw [hsig, length_nil] at hscript
    rw [hsig]
    omega
  have hou : ((vec txOut).write [o]).length ≤ 9 + 1 * 60 := by
    refine length_vec_write_le fun b hb => ?_
    obtain rfl := mem_singleton.mp hb
    have hscript := length_varBytes_write_le b.scriptPubkey
    show (Bytes.toLe 8 _ ++ varBytes.write b.scriptPubkey).length ≤ 60
    simp only [length_append, Bytes.length_toLe]
    omega
  have hwi : (witness.write i.witness).length ≤ 9 + i.witness.length * 209 := by
    refine length_vec_write_le fun w hw => ?_
    have := length_varBytes_write_le w
    have := hwit w hw
    omega
  simp only [serialize, map_cons, map_nil, flatMap_cons, flatMap_nil, append_nil]
  split_ifs
  · simp only [length_append, length_cons, hu32]
    omega
  · simp only [length_append, hu32]
    omega

lemma deserialize_serialize (h : tx.Fits) : deserialize tx.serialize = some tx := by
  have hread := read_serialize h []
  rw [append_nil] at hread
  rw [deserialize, hread]

lemma serialize_ne_nil (h : tx.Fits) : tx.serialize ≠ [] := by
  intro hnil
  have hread := deserialize_serialize h
  rw [hnil] at hread
  cases hread

end Transaction

end CoinCync.AtomicSwap
