import CoinCync.Lib.Table
import CoinCync.WalletKeys

/-!
# The balance of a wallet

`Balance`: the outputs of a wallet by transaction hash and output index, the reservations of
transactions in flight and the index of key images. Each map holds one value per key, which the
structure carries; the order of its rows is arbitrary, as that of a hash map is. Each change a scan
makes is given by what `get` returns after it, provided that the index holds the key image of every
output and nothing else.
-/

namespace CoinCync.Wallet

open List Option

open MachineInt (satAdd satSum)

/-- A place on the chain. -/
structure OutputLocator where
  height : ℕ
  ordinal : ℕ
deriving DecidableEq

/-- An output that the wallet owns. -/
structure Utxo where
  txHash : Hash
  outputIndex : ℕ
  outputLocator : Option OutputLocator
  amount : ℕ
  height : ℕ
  keyImage : KeyImage
  spent : Bool
  amountBlindingBytes : SecretKey
  txPublicKey : PublicKey
  lockHeight : Option ℕ
  subaddressAccount : Option ℕ
  subaddressIndex : Option ℕ
  paymentId : Option (List UInt8)
  keyEpoch : ℕ
deriving DecidableEq

/-- Transaction and index. -/
abbrev UtxoKey := Hash × ℕ

/-- Its key. -/
def Utxo.key (u : Utxo) : UtxoKey := (u.txHash, u.outputIndex)

/-- The flag, if the output has this key image. -/
def Utxo.withSpent (ki : KeyImage) (spent : Bool) (u : Utxo) : Utxo :=
  if u.keyImage = ki then { u with spent } else u

/-- Held for a transaction. -/
structure Reservation where
  byTx : Hash
  height : ℕ
deriving DecidableEq

/-- `RESERVATION_EXPIRY_BLOCKS`. -/
def reservationExpiryBlocks : ℕ := 300

/-- `Balance`. -/
structure Balance where
  utxos : List Utxo
  reservations : List (UtxoKey × Reservation)
  keyImageIndex : List (KeyImage × UtxoKey)
  utxos_nodup : (utxos.map Utxo.key).Nodup

namespace Balance

/-- Empty. -/
def new : Balance := ⟨[], [], [], nodup_nil⟩

variable (b : Balance)

/-- The output under a key. -/
def get (key : UtxoKey) : Option Utxo := b.utxos.find? (·.key = key)

/-! ## What can be spent -/

/-- `is_reserved`. -/
def isReserved (key : UtxoKey) (currentHeight : ℕ) : Bool :=
  match b.reservations.lookup key with
  | some r => currentHeight < satAdd 64 r.height reservationExpiryBlocks
  | none => false

/-- Unspent, old enough, unlocked and not reserved. -/
def isAvailable (currentHeight minAge : ℕ) (u : Utxo) : Bool :=
  !u.spent && decide (satAdd 64 u.height minAge ≤ currentHeight)
    && u.lockHeight.all (fun lockHeight => lockHeight ≤ currentHeight)
    && !b.isReserved u.key currentHeight

/-- `available_utxos`. -/
def availableUtxos (currentHeight minAge : ℕ) : List Utxo :=
  b.utxos.filter (b.isAvailable currentHeight minAge)

/-- `spendable`. -/
def spendable (currentHeight minAge : ℕ) : ℕ :=
  satSum 64 ((b.availableUtxos currentHeight minAge).map (·.amount))

/-- `unspent_utxos`. -/
def unspentUtxos : List Utxo := b.utxos.filter (!·.spent)

/-- `total`. -/
def total : ℕ := satSum 64 (b.unspentUtxos.map (·.amount))

lemma nodup_availableUtxos (currentHeight minAge : ℕ) :
    ((b.availableUtxos currentHeight minAge).map Utxo.key).Nodup :=
  b.utxos_nodup.sublist (filter_sublist.map _)

lemma isAvailable_eq_true :
    b.isAvailable currentHeight minAge u = true ↔
      u.spent = false ∧ satAdd 64 u.height minAge ≤ currentHeight ∧
        (∀ lockHeight, u.lockHeight = some lockHeight → lockHeight ≤ currentHeight) ∧
        b.isReserved u.key currentHeight = false := by
  unfold isAvailable
  cases u.lockHeight <;> simp [and_assoc]

/-! ## What a scan changes -/

/-- `add_utxo`. -/
def addUtxo (u : Utxo) : Balance where
  utxos := u :: b.utxos.filter (·.key ≠ u.key)
  reservations := b.reservations
  keyImageIndex := (u.keyImage, u.key) :: b.keyImageIndex.filter (·.1 ≠ u.keyImage)
  utxos_nodup := by
    rw [map_cons, nodup_cons]
    refine ⟨?_, b.utxos_nodup.sublist (filter_sublist.map _)⟩
    simp

/-- `from_utxos`. -/
def fromUtxos (utxos : List Utxo) : Balance := utxos.foldl addUtxo new

/-- An output that is not marked as spent. -/
def lookupByKeyImage (ki : KeyImage) : Option UtxoKey := do
  let key ← b.keyImageIndex.lookup ki
  let u ← b.get key
  if u.spent then none else some key

/-- The flag of one output. -/
def setSpent (key : UtxoKey) (spent : Bool) : Balance where
  utxos := b.utxos.map fun u => if u.key = key then { u with spent } else u
  reservations := b.reservations
  keyImageIndex := b.keyImageIndex
  utxos_nodup := by
    have hkeys : (b.utxos.map fun u => if u.key = key then { u with spent } else u).map Utxo.key
        = b.utxos.map Utxo.key := by
      rw [List.map_map]
      apply map_congr_left
      intro u _
      rw [Function.comp_apply]
      split_ifs <;> rfl
    rw [hkeys]
    exact b.utxos_nodup

/-- Free a key. -/
def removeReservation (key : UtxoKey) : Balance :=
  { b with reservations := b.reservations.filter (·.1 ≠ key) }

/-- `mark_spent`. -/
def markSpent (key : UtxoKey) : Balance := (b.setSpent key true).removeReservation key

/-- `mark_spent_by_key_image`. -/
def markSpentByKeyImage (ki : KeyImage) : Balance :=
  match b.lookupByKeyImage ki with
  | some key => b.markSpent key
  | none => b

/-- Unlike `lookupByKeyImage` this finds marked outputs. -/
def unmarkSpentByKeyImage (ki : KeyImage) : Balance :=
  match b.keyImageIndex.lookup ki with
  | none => b
  | some key =>
    match b.get key with
    | some u => if u.spent then b.setSpent key false else b
    | none => b

/-- One round of `remove_outputs`. -/
def removeOutput (key : UtxoKey) : Balance :=
  match b.get key with
  | none => b
  | some u =>
    { utxos := b.utxos.filter (·.key ≠ key)
      reservations := b.reservations.filter (·.1 ≠ key)
      keyImageIndex := b.keyImageIndex.filter (·.1 ≠ u.keyImage)
      utxos_nodup := b.utxos_nodup.sublist (filter_sublist.map _) }

/-- `remove_outputs`. -/
def removeOutputs (keys : List UtxoKey) : Balance := keys.foldl removeOutput b

/-- `release_expired_reservations`. -/
def releaseExpiredReservations (currentHeight : ℕ) : Balance :=
  { b with
    reservations := b.reservations.filter fun r =>
      currentHeight < satAdd 64 r.2.height reservationExpiryBlocks }

/-- The reservations of a file, on a fresh balance. -/
def restoreReservations (entries : List (UtxoKey × Reservation)) (currentHeight : ℕ) : Balance :=
  { b with
    reservations := entries.foldl (fun kept r =>
      if currentHeight < satAdd 64 r.2.height reservationExpiryBlocks then
        r :: kept.filter (·.1 ≠ r.1)
      else kept) b.reservations }

variable {b}

lemma get_eq_some : b.get key = some u ↔ u ∈ b.utxos ∧ u.key = key :=
  Table.find?_eq_some_iff b.utxos_nodup

@[simp] lemma get_new : new.get key = none := rfl

lemma get_addUtxo : (b.addUtxo u).get key = if key = u.key then some u else b.get key := by
  unfold get addUtxo
  rw [find?_cons]
  by_cases h : u.key = key
  · simp [h]
  · rw [if_neg (Ne.symm h)]
    simp only [h, decide_false]
    rw [find?_filter]
    congr 1
    funext v
    by_cases hv : v.key = key
    · simp [hv, Ne.symm h]
    · simp [hv]

lemma get_setSpent (spent : Bool) :
    (b.setSpent key spent).get key' =
      (b.get key').map fun u => if key' = key then { u with spent } else u := by
  unfold get setSpent
  rw [find?_map]
  have hkey : ((fun u : Utxo => decide (u.key = key')) ∘ fun u : Utxo =>
      if u.key = key then { u with spent := spent } else u) = fun u => decide (u.key = key') := by
    funext u
    rw [Function.comp_apply]
    split_ifs <;> rfl
  rw [hkey]
  cases hfind : b.utxos.find? fun u => decide (u.key = key') with
  | none => rfl
  | some u =>
    have hu : u.key = key' := by simpa using find?_some hfind
    rw [map_some, map_some, hu]

lemma get_removeOutput : (b.removeOutput key).get key' = if key' = key then none else b.get key' := by
  unfold removeOutput
  cases hget : b.get key with
  | none =>
    split_ifs with h
    · rw [h, hget]
    · rfl
  | some u =>
    rw [get, find?_filter]
    split_ifs with h
    · simp [h]
    · congr 1
      funext v
      by_cases hv : v.key = key'
      · simp [hv, h]
      · simp [hv]

lemma get_removeOutputs (keys : List UtxoKey) :
    (b.removeOutputs keys).get key' = if key' ∈ keys then none else b.get key' := by
  induction keys generalizing b with
  | nil => simp [removeOutputs]
  | cons key keys ih =>
    have hcons : b.removeOutputs (key :: keys) = (b.removeOutput key).removeOutputs keys := rfl
    rw [hcons, ih, get_removeOutput]
    by_cases hmem : key' ∈ keys <;> by_cases hkey : key' = key <;> simp [hkey]

/-! ## The index of key images -/

variable (b) in
/-- A key image leads to the output that has it. -/
def Indexed : Prop :=
  ∀ ki key, b.keyImageIndex.lookup ki = some key ↔ ∃ u, b.get key = some u ∧ u.keyImage = ki

lemma indexed_new : new.Indexed := fun ki key => by simp [new, get]

section

variable (h : b.Indexed)
include h

lemma Indexed.lookup (hget : b.get key = some u) :
    b.keyImageIndex.lookup u.keyImage = some key := (h _ _).mpr ⟨u, hget, rfl⟩

lemma Indexed.eq_of_keyImage (hu : b.get key = some u) (hv : b.get key' = some v)
    (heq : u.keyImage = v.keyImage) : key = key' := by
  have hlookup := h.lookup hu
  rw [heq, h.lookup hv] at hlookup
  exact (some.inj hlookup).symm

/-- An output with a new key image. -/
lemma Indexed.addUtxo (hu : ∀ key v, b.get key = some v → (v.keyImage = u.keyImage ↔ key = u.key)) :
    (b.addUtxo u).Indexed := by
  intro ki key
  have hindex : (b.addUtxo u).keyImageIndex.lookup ki =
      if ki = u.keyImage then some u.key else b.keyImageIndex.lookup ki := by
    rw [Balance.addUtxo, Table.lookup_cons, Table.lookup_filter _ (fun k => decide (k ≠ u.keyImage))]
    by_cases hki : ki = u.keyImage <;> simp [hki]
  rw [hindex, get_addUtxo]
  split_ifs with hki hkey hkey
  · simp [hki, hkey]
  · -- the key image is the new output's
    refine iff_of_false (fun heq => hkey (Option.some.inj heq).symm) ?_
    rintro ⟨v, hv, rfl⟩
    exact hkey ((hu key v hv).mp hki)
  · -- the key is
    refine iff_of_false (fun heq => ?_) (by simpa using Ne.symm hki)
    obtain ⟨v, hv, rfl⟩ := (h ki key).mp heq
    exact hki ((hu key v hv).mpr hkey)
  · exact h ki key

lemma Indexed.setSpent (key : UtxoKey) (spent : Bool) : (b.setSpent key spent).Indexed := by
  intro ki key'
  have hindex : (b.setSpent key spent).keyImageIndex = b.keyImageIndex := rfl
  rw [hindex, h ki key', get_setSpent]
  cases b.get key' with
  | none => simp
  | some u => by_cases hkey : key' = key <;> simp [hkey]

lemma Indexed.removeReservation (key : UtxoKey) : (b.removeReservation key).Indexed := h

lemma Indexed.removeOutput (key : UtxoKey) : (b.removeOutput key).Indexed := by
  cases hget : b.get key with
  | none =>
    have hremove : b.removeOutput key = b := by rw [Balance.removeOutput, hget]
    rwa [hremove]
  | some u =>
    intro ki key'
    have hindex : (b.removeOutput key).keyImageIndex.lookup ki =
        if ki = u.keyImage then none else b.keyImageIndex.lookup ki := by
      rw [Balance.removeOutput, hget]
      simp only
      rw [Table.lookup_filter _ (fun k => decide (k ≠ u.keyImage))]
      by_cases hki : ki = u.keyImage <;> simp [hki]
    rw [hindex, get_removeOutput]
    split_ifs with hki hkey hkey
    · simp
    · refine iff_of_false nofun ?_
      rintro ⟨v, hv, rfl⟩
      exact hkey (h.eq_of_keyImage hv hget hki)
    · subst hkey
      rw [h ki key']
      simp [hget, Ne.symm hki]
    · exact h ki key'

lemma Indexed.removeOutputs (keys : List UtxoKey) : (b.removeOutputs keys).Indexed := by
  induction keys generalizing b with
  | nil => exact h
  | cons key keys ih => exact ih (h.removeOutput key)

lemma lookupByKeyImage_eq_some :
    b.lookupByKeyImage ki = some key ↔ ∃ u, b.get key = some u ∧ u.keyImage = ki ∧ u.spent = false := by
  simp only [lookupByKeyImage, bind_eq_bind, bind_eq_some_iff, h ki]
  constructor
  · rintro ⟨key', ⟨u, hu, rfl⟩, v, hv, hif⟩
    obtain rfl := mem_unique hu hv
    cases hspent : u.spent with
    | true => simp [hspent] at hif
    | false =>
      obtain rfl : key' = key := by simpa [hspent] using hif
      exact ⟨u, hu, rfl, hspent⟩
  · rintro ⟨u, hu, rfl, hspent⟩
    exact ⟨key, ⟨u, hu, rfl⟩, u, hu, by simp [hspent]⟩

lemma Indexed.get_setSpent (hu : b.get key = some u) (spent : Bool) :
    (b.setSpent key spent).get key' = (b.get key').map (Utxo.withSpent u.keyImage spent) := by
  rw [Balance.get_setSpent]
  cases hget : b.get key' with
  | none => rfl
  | some v =>
    have hiff : key' = key ↔ v.keyImage = u.keyImage := by
      refine ⟨?_, h.eq_of_keyImage hget hu⟩
      rintro rfl
      rw [Option.mem_unique hget hu]
    simp only [map_some, Utxo.withSpent, hiff]

end

lemma map_withSpent_eq_self (h : ∀ u, b.get key = some u → u.keyImage = ki → u.spent = spent) :
    (b.get key).map (Utxo.withSpent ki spent) = b.get key := by
  cases hget : b.get key with
  | none => rfl
  | some u =>
    rw [map_some, Utxo.withSpent]
    split_ifs with hki
    · rw [← h u hget hki]
    · rfl

/-- Marking by key image marks the output that has it. -/
lemma get_markSpentByKeyImage (h : b.Indexed) :
    (b.markSpentByKeyImage ki).get key = (b.get key).map (Utxo.withSpent ki true) := by
  unfold markSpentByKeyImage
  cases hlookup : b.lookupByKeyImage ki with
  | none =>
    refine (map_withSpent_eq_self fun u hget hki => ?_).symm
    by_contra hspent
    have hfound := (lookupByKeyImage_eq_some h).mpr ⟨u, hget, hki, by simpa using hspent⟩
    simp [hlookup] at hfound
  | some key' =>
    obtain ⟨v, hv, rfl, -⟩ := (lookupByKeyImage_eq_some h).mp hlookup
    exact h.get_setSpent hv true

lemma Indexed.markSpentByKeyImage (h : b.Indexed) (ki : KeyImage) :
    (b.markSpentByKeyImage ki).Indexed := by
  unfold Balance.markSpentByKeyImage
  split
  · exact (h.setSpent _ _).removeReservation _
  · exact h

lemma get_unmarkSpentByKeyImage (h : b.Indexed) :
    (b.unmarkSpentByKeyImage ki).get key = (b.get key).map (Utxo.withSpent ki false) := by
  unfold unmarkSpentByKeyImage
  cases hlookup : b.keyImageIndex.lookup ki with
  | none =>
    refine (map_withSpent_eq_self fun u hget hki => ?_).symm
    subst hki
    simp [h.lookup hget] at hlookup
  | some key' =>
    obtain ⟨v, hv, rfl⟩ := (h ki key').mp hlookup
    simp only [hv]
    split_ifs with hspent
    · exact h.get_setSpent hv false
    · refine (map_withSpent_eq_self fun u hget hki => ?_).symm
      obtain rfl := h.eq_of_keyImage hget hv hki
      rw [mem_unique hget hv]
      simpa using hspent

lemma Indexed.unmarkSpentByKeyImage (h : b.Indexed) (ki : KeyImage) :
    (b.unmarkSpentByKeyImage ki).Indexed := by
  unfold Balance.unmarkSpentByKeyImage
  split
  · exact h
  · split
    · split_ifs
      · exact h.setSpent _ _
      · exact h
    · exact h

end Balance

end CoinCync.Wallet
