import CoinCync.SendAssembly

/-!
# A send conserves value

The loop over the fee ends, since the sum to reach grows in every round and stays a 64-bit number. The
outputs selected are distinct and free to spend, and their exact sum is what the payments, the change and
the fee take. Ages and reservations are compared with sums that stop at the largest height, so at that
height itself an output can be taken before its time.
-/

namespace CoinCync.Wallet

open List Option Check MachineInt CoinSelection TransferShape

/-! ## Selections come from what is available -/

variable {add : ℕ → ℕ → ℕ} {selected : List Utxo} {draw : SelectionDraw}

/-- The loop takes a beginning that reaches the target. -/
lemma accumulate_eq_ok {sum : ℕ} (h : accumulate add target taken sum l = .ok selected) :
    ∃ more, more <+: l ∧ selected = taken ++ more ∧
      target ≤ (more.map (·.amount)).foldl add sum := by
  induction l generalizing taken sum with
  | nil => exact absurd h (by simp [accumulate])
  | cons u l ih =>
    unfold accumulate at h
    split_ifs at h with hreached
    · cases h
      exact ⟨[u], ⟨l, rfl⟩, rfl, hreached⟩
    · obtain ⟨more, hprefix, rfl, hsum⟩ := ih h
      exact ⟨u :: more, (prefix_cons_inj u).mpr hprefix, by simp, hsum⟩

lemma CoinSelection.sort_perm (strategy : CoinSelection) (l : List Utxo) :
    (strategy.sort l).Perm l := by
  cases strategy with
  | random => exact .refl l
  | oldestFirst | newestFirst | largestFirst | smallestFirst => exact perm_insertionSort _ l

/-- What is selected reaches it. -/
lemma selectUtxos_eq_ok (h : selectUtxos add utxos target strategy draw = .ok selected) :
    selected.Subperm utxos ∧ target ≤ sumWith add (selected.map (·.amount)) := by
  unfold selectUtxos at h
  split_ifs at h
  obtain ⟨more, hprefix, rfl, hsum⟩ := accumulate_eq_ok h
  refine ⟨?_, hsum⟩
  have hperm := (strategy.sort_perm (draw.shuffle utxos)).trans (draw.shuffle_perm utxos)
  exact hprefix.sublist.subperm.trans hperm.subperm

/-- Pairs are sublists of two. -/
lemma mem_pairs_iff {α : Type} {l : List α} {a b : α} : (a, b) ∈ pairs l ↔ [a, b] <+ l := by
  induction l with
  | nil => simp [pairs]
  | cons x l ih =>
    rw [pairs, mem_append, ih, sublist_cons_iff, or_comm]
    simp [and_comm, eq_comm]

/-- A pair that covers the target. -/
lemma mem_candidates :
    c ∈ candidates add sorted target ↔ (c.left, c.right) ∈ pairs sorted ∧
      target ≤ add c.left.amount c.right.amount ∧
      c.excess = add c.left.amount c.right.amount - target := by
  rw [candidates, mem_filterMap]
  constructor
  · rintro ⟨⟨a, b⟩, hmem, h⟩
    simp only at h
    split_ifs at h with hreached
    cases h
    exact ⟨hmem, hreached, rfl⟩
  · rintro ⟨hmem, hreached, hexcess⟩
    refine ⟨(c.left, c.right), hmem, ?_⟩
    rw [if_pos hreached, ← hexcess]

lemma le_foldl_min_iff {l : List ℕ} : x ≤ l.foldl min a ↔ x ≤ a ∧ ∀ y ∈ l, x ≤ y := by
  induction l generalizing a with
  | nil => simp
  | cons y l ih =>
    rw [foldl_cons, ih, Nat.le_min, forall_mem_cons, and_assoc]

lemma le_bestExcess_iff {found : List Candidate} :
    x ≤ bestExcess found ↔ x ≤ 2 ^ 64 - 1 ∧ ∀ c ∈ found, x ≤ c.excess := by
  rw [bestExcess, le_foldl_min_iff, List.forall_mem_map]

/-- The candidate that a random number stands for. -/
def chosen (add : ℕ → ℕ → ℕ) (found : List Candidate) (n : ℕ) : Option Candidate :=
  (goodCandidates add found)[n % (goodCandidates add found).length]?.or found.head?

/-- A uniform selection is a choice. -/
lemma selectUtxosUniform_eq_ok : selectUtxosUniform add utxos target draw = .ok selected ↔
    ∃ first second rest c, largestFirst.sort utxos = first :: second :: rest ∧
      target ≤ add first.amount second.amount ∧
      chosen add (candidates add (largestFirst.sort utxos) target) draw.choice = some c ∧
      selected = [c.left, c.right] := by
  unfold selectUtxosUniform chosen
  split
  case h_2 hshort =>
    refine ⟨nofun, ?_⟩
    rintro ⟨first, second, rest, -, hsorted, -⟩
    exact absurd hsorted (hshort first second rest)
  case h_1 first second rest hsorted =>
    rw [hsorted]
    constructor
    · intro h
      simp only at h
      split_ifs at h with hlargest
      split at h
      case h_2 => cases h
      case h_1 c hc =>
        cases h
        exact ⟨first, second, rest, c, rfl, not_lt.mp hlargest, hc, rfl⟩
    · rintro ⟨first, second, rest, c, heq, hreached, hc, rfl⟩
      cases heq
      simp only [if_neg hreached.not_gt, hc]

/-- It reaches the target with two outputs. -/
lemma selectUtxosUniform_spec (h : selectUtxosUniform add utxos target draw = .ok selected)
    (hadd : ∀ a b, add (add 0 a) b = add a b) :
    selected.Subperm utxos ∧ target ≤ sumWith add (selected.map (·.amount)) ∧
      selected.length = standardInputCount := by
  obtain ⟨first, second, rest, c, -, -, hc, rfl⟩ := selectUtxosUniform_eq_ok.mp h
  have hmem : c ∈ candidates add (largestFirst.sort utxos) target := by
    rcases or_eq_some_iff.mp hc with hgood | ⟨-, hhead⟩
    · exact mem_of_mem_filter (mem_of_getElem? hgood)
    · exact mem_of_mem_head? hhead
  obtain ⟨hpair, hreached, -⟩ := mem_candidates.mp hmem
  refine ⟨?_, ?_, rfl⟩
  · exact (mem_pairs_iff.mp hpair).subperm.trans (sort_perm _ utxos).subperm
  · show target ≤ add (add 0 c.left.amount) c.right.amount
    rwa [hadd]

/-- The choice is always among the good candidates. -/
lemma mem_goodCandidates_of_chosen
    (h : chosen (satAdd 64) (candidates (satAdd 64) sorted target) n = some c) :
    c ∈ goodCandidates (satAdd 64) (candidates (satAdd 64) sorted target) := by
  generalize hfound : candidates (satAdd 64) sorted target = found at h ⊢
  rcases or_eq_some_iff.mp h with hgood | ⟨hnone, hhead⟩
  · exact mem_of_getElem? hgood
  · -- no index is out of range, so no candidate is good; but the best one is
    have hempty : goodCandidates (satAdd 64) found = [] := by
      by_contra hne
      have hpos := length_pos_iff.mpr hne
      have hlt := Nat.mod_lt n hpos
      rw [getElem?_eq_none_iff] at hnone
      omega
    have hmem : c ∈ found := mem_of_mem_head? hhead
    have hfar : ∀ c ∈ found, excessThreshold (satAdd 64) (bestExcess found) < c.excess := by
      intro c hc
      have := filter_eq_nil_iff.mp hempty c hc
      simpa using this
    have hthreshold : bestExcess found ≤ excessThreshold (satAdd 64) (bestExcess found) := by
      have hbest := le_bestExcess_iff.mp (le_refl (bestExcess found))
      unfold excessThreshold satAdd
      omega
    have hroom := hfar c hmem
    have hfit : c.excess ≤ 2 ^ 64 - 1 := by
      rw [← hfound] at hmem
      obtain ⟨-, -, hexcess⟩ := mem_candidates.mp hmem
      have := satAdd_le 64 c.left.amount c.right.amount
      omega
    have hbeyond : excessThreshold (satAdd 64) (bestExcess found) + 1 ≤ bestExcess found :=
      le_bestExcess_iff.mpr ⟨by omega, hfar⟩
    omega

lemma excessThreshold_le (h : best ≤ best') :
    excessThreshold (satAdd 64) best ≤ excessThreshold (· + ·) best' := by
  have hfifth : best + best / 5 ≤ best' + best' / 5 := by omega
  have hone : best + 1 ≤ best' + 1 := by omega
  exact max_le_max ((min_le_left _ _).trans hfifth) ((min_le_left _ _).trans hone)

/-- Good with saturating sums is good with exact ones, if the sum fits. -/
lemma mem_goodCandidates_exact (hfit : c.left.amount + c.right.amount < 2 ^ 64)
    (h : c ∈ goodCandidates (satAdd 64) (candidates (satAdd 64) sorted target)) :
    c ∈ goodCandidates (· + ·) (candidates (· + ·) sorted target) := by
  have hmem := mem_filter.mp h
  obtain ⟨hpair, hreached, hexcess⟩ := mem_candidates.mp hmem.1
  have hgood : c.excess ≤
      excessThreshold (satAdd 64) (bestExcess (candidates (satAdd 64) sorted target)) := by
    simpa using hmem.2
  rw [satAdd_of_lt hfit] at hreached hexcess
  -- saturation only makes the other sums, and with them the best excess, smaller
  have hbest : bestExcess (candidates (satAdd 64) sorted target) ≤
      bestExcess (candidates (· + ·) sorted target) := by
    rw [le_bestExcess_iff]
    have hself :=
      le_bestExcess_iff.mp (le_refl (bestExcess (candidates (satAdd 64) sorted target)))
    refine ⟨hself.1, ?_⟩
    intro d hd
    obtain ⟨hdpair, hdreached, hdexcess⟩ := mem_candidates.mp hd
    have hsat : target ≤ satAdd 64 d.left.amount d.right.amount := by
      unfold satAdd
      omega
    have hle := hself.2 ⟨d.left, d.right, satAdd 64 d.left.amount d.right.amount - target⟩
      (mem_candidates.mpr ⟨hdpair, hsat, rfl⟩)
    have hmin : satAdd 64 d.left.amount d.right.amount ≤ d.left.amount + d.right.amount :=
      min_le_left _ _
    simp only at hle
    omega
  have hexact : c.excess ≤
      excessThreshold (· + ·) (bestExcess (candidates (· + ·) sorted target)) :=
    hgood.trans (excessThreshold_le hbest)
  exact mem_filter.mpr ⟨mem_candidates.mpr ⟨hpair, hreached, hexcess⟩, by simpa using hexact⟩

/-- A pair whose sum fits can be chosen exactly too. -/
lemma selectUtxosUniform_exact (h : selectUtxosUniform (satAdd 64) utxos target draw = .ok selected)
    (hfit : (selected.map (·.amount)).sum < 2 ^ 64) :
    ∃ n, selectUtxosUniform (· + ·) utxos target { draw with choice := n } = .ok selected := by
  obtain ⟨first, second, rest, c, hsorted, hreached, hc, rfl⟩ := selectUtxosUniform_eq_ok.mp h
  have hgood := mem_goodCandidates_of_chosen hc
  have hexact := mem_goodCandidates_exact (by simpa using hfit) hgood
  obtain ⟨n, hn, hget⟩ := mem_iff_getElem.mp hexact
  refine ⟨n, selectUtxosUniform_eq_ok.mpr
    ⟨first, second, rest, c, hsorted, hreached.trans (min_le_left _ _), ?_, rfl⟩⟩
  rw [chosen, Nat.mod_eq_of_lt hn, getElem?_eq_getElem hn, hget]
  rfl

/-! ## The loop -/

variable {balance : Balance} {request : SendRequest} {shape : TransferShape}
  {draws : ℕ → SelectionDraw} {s : Selection}

/-- What a round selects. -/
structure Selected (add : ℕ → ℕ → ℕ) (balance : Balance) (request : SendRequest)
    (shape : TransferShape) (s : Selection) : Prop where
  subperm : s.selected.Subperm
    (balance.availableUtxos request.context.targetHeight request.context.minOutputAge)
  fee_eq : s.estimatedFee = scaledFee s.selected.length (shape.outputCount request.payments)
    request.context.ringSize request.feeMultiplier
  needed_eq : s.totalNeeded = add (totalSend add request) s.estimatedFee
  sum_eq : s.inputSum = sumWith add (s.selected.map (·.amount))

lemma satAdd_zero_left (a b : ℕ) : satAdd 64 (satAdd 64 0 a) b = satAdd 64 a b := by
  unfold satAdd
  omega

lemma selected_of_reselect (hadd : ∀ a b, add (add 0 a) b = add a b)
    (h : reselect add balance request shape draw required = .ok s) :
    Selected add balance request shape s ∧ required ≤ s.inputSum ∧
      (shape.isUniform = true → s.selected.length = standardInputCount) := by
  simp only [reselect, seq_eq_ok] at h
  obtain ⟨selected, hselected, h⟩ := bind_eq_ok.mp h.2
  cases h
  unfold selectFor at hselected
  split_ifs at hselected with huniform
  · obtain ⟨hsub, hsum, hlength⟩ := selectUtxosUniform_spec hselected hadd
    exact ⟨⟨hsub, rfl, rfl, rfl⟩, hsum, fun _ => hlength⟩
  · obtain ⟨hsub, hsum⟩ := selectUtxos_eq_ok hselected
    exact ⟨⟨hsub, rfl, rfl, rfl⟩, hsum, fun h => absurd h huniform⟩

/-- Every further round asks for more, and no sum exceeds 64 bits. -/
lemma selectLoop_isSome (fuel round required : ℕ) (hlt : required < 2 ^ 64)
    (hfuel : 2 ^ 64 ≤ required + fuel) :
    (selectLoop (satAdd 64) balance request shape draws fuel round required).isSome := by
  induction fuel generalizing round required with
  | zero => omega
  | succ fuel ih =>
    unfold selectLoop
    split
    case h_1 => rfl
    case h_2 s hs =>
      split_ifs with hcovered
      · rfl
      · obtain ⟨hselected, hreached, -⟩ := selected_of_reselect satAdd_zero_left hs
        have hle := satAdd_le 64 (totalSend (satAdd 64) request) s.estimatedFee
        rw [← hselected.needed_eq] at hle
        apply ih
        · omega
        · omega

/-- The loop ends with a selection that covers its need. -/
lemma selected_of_selectLoop {round : ℕ} (hadd : ∀ a b, add (add 0 a) b = add a b)
    (h : selectLoop add balance request shape draws fuel round required = some (.ok s)) :
    Selected add balance request shape s ∧ s.totalNeeded ≤ s.inputSum := by
  induction fuel generalizing round required with
  | zero => simp [selectLoop] at h
  | succ fuel ih =>
    unfold selectLoop at h
    split at h
    case h_1 => simp at h
    case h_2 s' hs' =>
      split_ifs at h with hcovered
      · obtain rfl : s' = s := by simpa using h
        exact ⟨(selected_of_reselect hadd hs').1, hcovered⟩
      · exact ih h

lemma selectLoop_of_covered {round : ℕ} (hfuel : 0 < fuel)
    (h : reselect add balance request shape (draws round) required = .ok s)
    (hcovered : s.totalNeeded ≤ s.inputSum) :
    selectLoop add balance request shape draws fuel round required = some (.ok s) := by
  obtain ⟨fuel, rfl⟩ := Nat.exists_eq_succ_of_ne_zero hfuel.ne'
  simp only [selectLoop, h, if_pos hcovered]

/-- A uniform transfer needs one round: the first estimate counts two inputs. -/
lemma reselect_of_selectLoop {round : ℕ} (huniform : shape.isUniform = true)
    (h : selectLoop (satAdd 64) balance request shape draws fuel round
      (initialRequired (satAdd 64) request shape) = some (.ok s)) :
    reselect (satAdd 64) balance request shape (draws round)
      (initialRequired (satAdd 64) request shape) = .ok s := by
  cases fuel with
  | zero => simp [selectLoop] at h
  | succ fuel =>
    unfold selectLoop at h
    split at h
    case h_1 => simp at h
    case h_2 s' hs' =>
      obtain ⟨hselected, hreached, hlength⟩ := selected_of_reselect satAdd_zero_left hs'
      have hneeded : s'.totalNeeded = initialRequired (satAdd 64) request shape := by
        rw [hselected.needed_eq, hselected.fee_eq, hlength huniform, initialRequired,
          inputCountEstimate, if_pos huniform]
      rw [if_pos (hneeded.trans_le hreached)] at h
      obtain rfl : s' = s := by simpa using h
      exact hs'

/-! ## Exact sums -/

lemma sumWith_satAdd (l : List ℕ) : sumWith (satAdd 64) l = min l.sum (2 ^ 64 - 1) :=
  satSum_eq_min 64 l

lemma sumWith_add (l : List ℕ) : sumWith (· + ·) l = l.sum := sum_eq_foldl.symm

lemma ensureSpendable_exact (h : ensureSpendable (satAdd 64) balance height minAge need = .ok ()) :
    ensureSpendable (· + ·) balance height minAge need = .ok () := by
  unfold ensureSpendable at h ⊢
  simp only [sumWith_satAdd, sumWith_add] at h ⊢
  split_ifs at h with hneed
  exact if_pos (hneed.trans (min_le_left _ _))

/-- A round whose sums fit can be had with exact sums. -/
lemma reselect_exact (huniform : shape.isUniform = true)
    (h : reselect (satAdd 64) balance request shape draw required = .ok s)
    (hfit : (s.selected.map (·.amount)).sum < 2 ^ 64)
    (hneeded : (request.payments.map (·.amount)).sum + s.estimatedFee < 2 ^ 64) :
    ∃ n, reselect (· + ·) balance request shape { draw with choice := n } required = .ok s := by
  simp only [reselect, selectFor, seq_eq_ok, if_pos huniform] at h ⊢
  obtain ⟨hspendable, h⟩ := h
  obtain ⟨selected, hselected, h⟩ := bind_eq_ok.mp h
  cases h
  simp only at hfit hneeded
  obtain ⟨n, hn⟩ := selectUtxosUniform_exact hselected hfit
  refine ⟨n, ensureSpendable_exact hspendable, bind_eq_ok.mpr ⟨selected, hn, ?_⟩⟩
  have hsend : totalSend (satAdd 64) request = totalSend (· + ·) request := by
    unfold totalSend
    rw [sumWith_satAdd, sumWith_add]
    omega
  have hexact : totalSend (· + ·) request = (request.payments.map (·.amount)).sum := sumWith_add _
  simp only [hsend, sumWith_satAdd, sumWith_add]
  rw [satAdd_of_lt (by rw [hexact]; exact hneeded), Nat.min_eq_left (by omega)]
  rfl

/-! ## Sends -/

namespace Balance

/-- Unspent, old enough, unlocked and not reserved, in exact arithmetic. -/
def Free (b : Balance) (height minAge : ℕ) (u : Utxo) : Prop :=
  u.spent = false ∧ u.height + minAge ≤ height ∧
    (∀ lockHeight, u.lockHeight = some lockHeight → lockHeight ≤ height) ∧
    ∀ r, b.reservations.lookup u.key = some r → r.height + reservationExpiryBlocks ≤ height

/-- Below the largest height the thresholds are exact. -/
lemma free_of_isAvailable {b : Balance} (hheight : height < 2 ^ 64 - 1)
    (h : b.isAvailable height minAge u = true) : b.Free height minAge u := by
  obtain ⟨hspent, hage, hlock, hreserved⟩ := b.isAvailable_eq_true.mp h
  unfold satAdd at hage
  refine ⟨hspent, by omega, hlock, ?_⟩
  intro r hr
  have hexpired : ¬height < satAdd 64 r.height reservationExpiryBlocks := by
    simpa [isReserved, hr] using hreserved
  unfold satAdd at hexpired
  omega

end Balance

variable {F G : Type} [CommRing F] [AddCommGroup G] [Module F G] {C : Curve F G} {B : BuildEnv F}
  {keys : SpendKeys C} {prepared : PreparedPrivacyTransaction F} {tx : Transaction}

lemma prepareSelected_fields (h : prepareSelected keys u = .ok input) :
    (input.input.txHash, input.input.outputIndex) = u.key ∧ input.input.amount = u.amount := by
  obtain ⟨k, -, h⟩ := bind_eq_ok.mp h
  obtain ⟨locator, -, h⟩ := bind_eq_ok.mp (mapError_eq_ok.mp h)
  obtain ⟨secret, -, h⟩ := bind_eq_ok.mp h
  cases h
  exact ⟨rfl, rfl⟩

/-- What a prepared transaction has from its selection. -/
lemma finishSend_eq_ok {shape : TransferShape} {s : Selection}
    (h : finishSend request keys change shape s = .ok prepared) :
    prepared.payments = request.payments ∧ prepared.changeAmount = s.inputSum - s.totalNeeded ∧
      prepared.estimatedFee = s.estimatedFee ∧ prepared.shape = shape ∧
      prepared.inputs.map (fun i => (i.input.txHash, i.input.outputIndex)) = s.selected.map Utxo.key ∧
      prepared.inputs.map (·.input.amount) = s.selected.map (·.amount) := by
  obtain ⟨inputs, hinputs, h⟩ := bind_eq_ok.mp h
  cases h
  refine ⟨rfl, rfl, rfl, rfl, ?_, ?_⟩
  · exact map_eq_of_mapM hinputs fun u input hu => (prepareSelected_fields hu).1
  · exact map_eq_of_mapM hinputs fun u input hu => (prepareSelected_fields hu).2

lemma isUniform_of_classify {shape : TransferShape}
    (h : classify payments height = .ok shape) : shape.isUniform = true := by
  unfold classify at h
  have hactive : ¬height < uniformTxShapeHeight := Nat.not_lt_zero height
  rw [if_neg hactive] at h
  split at h
  case h_1 p q =>
    split_ifs at h
    cases h
    rfl
  case h_2 =>
    cases h
    rfl
  case h_3 =>
    cases h
    rfl
  case h_4 => simp at h

/-- The parts of a preparation that succeeded. -/
lemma prepareWith_eq_ok {add : ℕ → ℕ → ℕ}
    (h : prepareWith add balance request keys draws = some (.ok prepared)) :
    ∃ change shape s, startSend add balance request keys = .ok (change, shape) ∧
      selectLoop add balance request shape draws (2 ^ 64) 0 (initialRequired add request shape)
        = some (.ok s) ∧
      finishSend request keys change shape s = .ok prepared := by
  unfold prepareWith at h
  split at h
  case h_1 => simp at h
  case h_2 change shape hstart =>
    obtain ⟨result, hloop, h⟩ := map_eq_some_iff.mp h
    obtain ⟨s, rfl, hfinish⟩ := bind_eq_ok.mp h
    exact ⟨change, shape, s, hstart, hloop, hfinish⟩

lemma prepare_isSome : (preparePrivacyTransaction balance request keys draws).isSome := by
  unfold preparePrivacyTransaction prepareWith
  split
  case h_1 => rfl
  case h_2 change shape hstart =>
    rw [isSome_map]
    have hle := satAdd_le 64 (totalSend (satAdd 64) request)
      (scaledFee shape.inputCountEstimate (shape.outputCount request.payments)
        request.context.ringSize request.feeMultiplier)
    apply selectLoop_isSome
    · unfold initialRequired
      omega
    · omega

lemma scaledFee_lt (inputCount outputCount ringSize multiplier : ℕ) :
    scaledFee inputCount outputCount ringSize multiplier < 2 ^ 64 - 1 := by
  unfold scaledFee satMul
  omega

/-- The amounts of what was assembled. -/
lemma Assembled.amounts {draw : AssemblyDraw F}
    (h : Assembled C prepared draw tx paid change dummies) :
    paid.map (·.amount) = prepared.payments.map (·.amount) ∧ (dummies.map (·.amount)).sum = 0 := by
  constructor
  · apply ext_getElem?
    intro j
    rw [getElem?_map, getElem?_map]
    rcases lt_or_ge j prepared.payments.length with hj | hj
    · have hj' : j < paid.length := h.paid_length.symm ▸ hj
      have hpaid := h.paid_to j _ _ (getElem?_eq_getElem hj) (getElem?_eq_getElem hj')
      rw [getElem?_eq_getElem hj, getElem?_eq_getElem hj', map_some, hpaid.amount_eq]
      rfl
    · rw [getElem?_eq_none hj, getElem?_eq_none (h.paid_length.trans_le hj)]
      rfl
  · apply sum_eq_zero
    intro a ha
    obtain ⟨o, ho, rfl⟩ := mem_map.mp ha
    obtain ⟨j, hj⟩ := mem_iff_getElem?.mp ho
    obtain ⟨k, hk⟩ := h.dummies_made j o hj
    exact hk.amount_eq

/-- Exact outputs make the preparation's sums exact. -/
lemma sums_exact (hsum : inputSum = min total m)
    (hneeded : needed = min (min send m + estimate) m) (hcovered : needed ≤ inputSum)
    (hestimate : estimate ≤ m) (hfit : total ≤ m) (hbalance : total = send + change + fee)
    (hchange : change = inputSum - needed ∧ fee = estimate ∨
      change = 0 ∧ fee = min (estimate + (inputSum - needed)) m) :
    send + estimate ≤ m ∧ estimate ≤ fee ∧ (change = 0 → fee - estimate ≤ inputSum - needed) := by
  omega

lemma startSend_exact {shape : TransferShape}
    (h : startSend (satAdd 64) balance request keys = .ok (change, shape))
    (hinitial : initialRequired (satAdd 64) request shape = initialRequired (· + ·) request shape) :
    startSend (· + ·) balance request keys = .ok (change, shape) := by
  obtain ⟨change', hchange, h⟩ := bind_eq_ok.mp h
  obtain ⟨shape', hshape, h⟩ := bind_eq_ok.mp h
  obtain ⟨hspendable, h⟩ := seq_eq_ok.mp h
  obtain ⟨rfl, rfl⟩ := Prod.mk.inj (Except.ok.inj h)
  refine bind_eq_ok.mpr ⟨change', hchange, bind_eq_ok.mpr ⟨shape', hshape, ?_⟩⟩
  rw [hinitial] at hspendable
  exact seq_eq_ok.mpr ⟨ensureSpendable_exact hspendable, rfl⟩

lemma isUniform_of_startSend {add : ℕ → ℕ → ℕ} {shape : TransferShape}
    (h : startSend add balance request keys = .ok (change, shape)) : shape.isUniform = true := by
  obtain ⟨change', -, h⟩ := bind_eq_ok.mp h
  obtain ⟨shape', hshape, h⟩ := bind_eq_ok.mp h
  obtain ⟨-, h⟩ := seq_eq_ok.mp h
  cases h
  exact isUniform_of_classify hshape

/-- A preparation whose sums fit is exact, for some random choices. -/
lemma prepareWith_exact {shape : TransferShape} {s : Selection}
    (hstart : startSend (satAdd 64) balance request keys = .ok (change, shape))
    (hloop : selectLoop (satAdd 64) balance request shape draws (2 ^ 64) 0
      (initialRequired (satAdd 64) request shape) = some (.ok s))
    (hfinish : finishSend request keys change shape s = .ok prepared)
    (hfit : (s.selected.map (·.amount)).sum < 2 ^ 64)
    (hneeded : (request.payments.map (·.amount)).sum + s.estimatedFee < 2 ^ 64) :
    ∃ draws', prepareWith (· + ·) balance request keys draws' = some (.ok prepared) := by
  have huniform := isUniform_of_startSend hstart
  have hreselect := reselect_of_selectLoop huniform hloop
  obtain ⟨hselected, -, hlength⟩ := selected_of_reselect satAdd_zero_left hreselect
  -- the first estimate is the fee of the selection
  have hfee : scaledFee shape.inputCountEstimate (shape.outputCount request.payments)
      request.context.ringSize request.feeMultiplier = s.estimatedFee := by
    rw [hselected.fee_eq, hlength huniform, inputCountEstimate, if_pos huniform]
  have hexact : totalSend (· + ·) request = (request.payments.map (·.amount)).sum := sumWith_add _
  have hsend : totalSend (satAdd 64) request = (request.payments.map (·.amount)).sum := by
    rw [totalSend, sumWith_satAdd]
    exact min_eq_left (by omega)
  have hinitial : initialRequired (satAdd 64) request shape = initialRequired (· + ·) request shape := by
    unfold initialRequired
    rw [hfee, hsend, hexact, satAdd_of_lt hneeded]
  obtain ⟨n, hn⟩ := reselect_exact huniform hreselect hfit hneeded
  obtain ⟨hselected', hreached, -⟩ := selected_of_reselect (fun a b => by omega) hn
  have hcovered : s.totalNeeded ≤ s.inputSum := by
    rw [hselected'.needed_eq, ← hfee]
    rw [hinitial] at hreached
    exact hreached
  refine ⟨fun _ => { draws 0 with choice := n }, ?_⟩
  rw [hinitial] at hn
  have hloop' : selectLoop (· + ·) balance request shape (fun _ => { draws 0 with choice := n })
      (2 ^ 64) 0 (initialRequired (· + ·) request shape) = some (.ok s) :=
    selectLoop_of_covered (Nat.two_pow_pos 64) hn hcovered
  simp only [prepareWith, startSend_exact hstart hinitial, hloop']
  exact congrArg some (bind_eq_ok.mpr ⟨s, rfl, hfinish⟩)

/-- The change is a large enough output, or part of the fee. -/
lemma Change.amounts {r : F} (h : Change C prepared r change fee) :
    (change.map (·.amount)).sum = prepared.changeAmount ∧ fee = prepared.estimatedFee ∧
        change.length ≤ 1 ∧ (∀ o ∈ change, minOutputAmount ≤ o.amount) ∨
      change = [] ∧ fee = satAdd 64 prepared.estimatedFee prepared.changeAmount ∧
        (prepared.changeAmount < minOutputAmount ∨ prepared.shape = .uniformDripPair ∧
          prepared.changeAmount ≤ (prepared.payments.map (·.amount)).sum) := by
  cases h with
  | output o room _ paid =>
    have hamount : o.amount = prepared.changeAmount := paid.amount_eq
    refine .inl ⟨by simp [hamount], rfl, le_rfl, ?_⟩
    intro o' ho'
    obtain rfl := mem_singleton.mp ho'
    rw [hamount]
    exact paid.1
  | folded h =>
    refine .inr ⟨rfl, rfl, h.imp_right fun hdrip => ⟨hdrip.1, hdrip.2.trans ?_⟩⟩
    rw [sumWith_satAdd]
    exact min_le_left _ _

/-- What a prepared and built send did with the balance. -/
structure Conserved (C : Curve F G) (balance : Balance) (request : SendRequest) (keys : SpendKeys C)
    (prepared : PreparedPrivacyTransaction F) (draw : AssemblyDraw F) (tx : Transaction)
    (selected : List Utxo) (paid change dummies : List (OutputBuilder F)) : Prop where
  assembled : Assembled C prepared draw tx paid change dummies
  inputs_eq : prepared.inputs.map (fun i => (i.input.txHash, i.input.outputIndex))
    = selected.map Utxo.key
  distinct : (selected.map Utxo.key).Nodup
  available : ∀ u ∈ selected, u ∈ balance.utxos ∧
    balance.isAvailable request.context.targetHeight request.context.minOutputAge u = true
  free : request.context.targetHeight < 2 ^ 64 - 1 → ∀ u ∈ selected,
    balance.Free request.context.targetHeight request.context.minOutputAge u
  paid_eq : paid.map (·.amount) = request.payments.map (·.amount)
  change_le_one : change.length ≤ 1
  change_min : ∀ o ∈ change, minOutputAmount ≤ o.amount
  sum_eq : (selected.map (·.amount)).sum
    = (request.payments.map (·.amount)).sum + (change.map (·.amount)).sum + tx.fee
  fee_ge : prepared.estimatedFee ≤ tx.fee
  fee_excess : tx.fee - prepared.estimatedFee < minOutputAmount ∨
    prepared.shape = .uniformDripPair ∧
      tx.fee - prepared.estimatedFee ≤ (request.payments.map (·.amount)).sum
  exact : ∃ draws, prepareWith (· + ·) balance request keys draws = some (.ok prepared)

/-- The loop over the fee ends; and when a send is prepared and built, the exact sum of the distinct
outputs selected is that of the payments, the change and the fee. -/
theorem send_conserves (C : Curve F G) (balance : Balance) (request : SendRequest) (keys : SpendKeys C)
    (draws : ℕ → SelectionDraw) :
    (preparePrivacyTransaction balance request keys draws).isSome ∧
      ∀ prepared, preparePrivacyTransaction balance request keys draws = some (.ok prepared) →
        ∀ (B : BuildEnv F) (rings : AllocatedRings) (draw : AssemblyDraw F) (tx : Transaction),
          buildPreparedPrivacyTransaction C B prepared rings draw = .ok tx →
            ∃ selected paid change dummies,
              Conserved C balance request keys prepared draw tx selected paid change dummies := by
  refine ⟨prepare_isSome, ?_⟩
  intro prepared hprepare B rings draw tx hbuild
  obtain ⟨changeKeys, shape, s, hstart, hloop, hfinish⟩ := prepareWith_eq_ok hprepare
  obtain ⟨hselected, hcovered⟩ := selected_of_selectLoop satAdd_zero_left hloop
  obtain ⟨hpayments, hchangeAmount, hestimate, hshape, hkeys, hamounts⟩ := finishSend_eq_ok hfinish
  obtain ⟨paid, change, dummies, hassembled⟩ := assembled_of_build hbuild
  obtain ⟨hpaid, hdummies⟩ := hassembled.amounts
  rw [hpayments] at hpaid
  have hbalance := hassembled.balance
  have hfit := hassembled.fit
  simp only [map_append, sum_append, hpaid, hdummies, hamounts, add_zero] at hbalance hfit
  have hestimate_lt : s.estimatedFee < 2 ^ 64 - 1 := by
    rw [hselected.fee_eq]
    exact scaledFee_lt ..
  have hchange := hassembled.change_fee.amounts
  rw [hchangeAmount, hestimate, hpayments] at hchange
  have hexact := sums_exact (by rw [hselected.sum_eq, sumWith_satAdd])
    (by rw [hselected.needed_eq, totalSend, sumWith_satAdd]; rfl) hcovered hestimate_lt.le
    (by omega) hbalance (by
      rcases hchange with ⟨hsum, hfee, -⟩ | ⟨hnone, hfee, -⟩
      · exact .inl ⟨hsum, hfee⟩
      · exact .inr ⟨by rw [hnone]; rfl, hfee⟩)
  obtain ⟨hneeded, hfee_ge, hfolded⟩ := hexact
  refine ⟨s.selected, paid, change, dummies, hassembled, hkeys, ?_, ?_, ?_, hpaid, ?_, ?_, hbalance, ?_, ?_,
    ?_⟩
  · obtain ⟨l, hperm, hsub⟩ := hselected.subperm
    exact (hperm.map Utxo.key).nodup_iff.mp
      ((balance.nodup_availableUtxos _ _).sublist (hsub.map Utxo.key))
  · intro u hu
    exact mem_filter.mp (hselected.subperm.subset hu)
  · intro hheight u hu
    exact Balance.free_of_isAvailable hheight (mem_filter.mp (hselected.subperm.subset hu)).2
  · rcases hchange with ⟨-, -, hone, -⟩ | ⟨rfl, -⟩
    · exact hone
    · exact Nat.zero_le 1
  · rcases hchange with ⟨-, -, -, hmin⟩ | ⟨rfl, -⟩
    · exact hmin
    · simp
  · rwa [hestimate]
  · rw [hestimate]
    rcases hchange with ⟨-, hfee, -⟩ | ⟨rfl, -, hsmall⟩
    · rw [hfee, Nat.sub_self]
      exact .inl (by decide)
    · have hle := hfolded rfl
      exact hsmall.imp hle.trans_lt fun hdrip => ⟨hdrip.1, hle.trans hdrip.2⟩
  · exact prepareWith_exact hstart hloop hfinish (by omega) (by omega)

/-! ## Two sends -/

/-- Two outputs of one height. -/
def smallBalance (height : ℕ) : Balance where
  utxos := [smallUtxo 0 height, smallUtxo 1 height]
  reservations := []
  keyImageIndex := []
  utxos_nodup := by simp [smallUtxo, Utxo.key]

/-- A payment of half an output to the wallet itself. -/
def smallRequest (targetHeight : ℕ) : SendRequest where
  payments := [⟨smallKeys.spendPublic, smallKeys.viewPublic, 500000000, false⟩]
  context := .forTargetHeight 0 targetHeight
  feeMultiplier := 100
  memo := none
  extra := []
  paymentId := none

/-- No shuffle. -/
def smallDraws (_ : ℕ) : SelectionDraw := ⟨id, .refl, 0⟩

/-- Its preparation. -/
def smallPrepare (height targetHeight : ℕ) :
    Option (Except SendError (PreparedPrivacyTransaction (ZMod 7))) :=
  preparePrivacyTransaction (smallBalance height) (smallRequest targetHeight) (.single smallKeys) smallDraws

/-- The send, and whether it spends the first output. -/
def smallSend (height targetHeight : ℕ) : Option Bool :=
  match smallPrepare height targetHeight with
  | some (.ok prepared) =>
    match buildPreparedPrivacyTransaction Curve.small smallBuild prepared (smallRings prepared) smallDraw with
    | .ok _ => some (prepared.inputs.any fun i => (i.input.txHash, i.input.outputIndex) = (1, 0))
    | .error _ => none
  | _ => none

lemma smallSend_eq_some (h : smallSend height targetHeight = some true) :
    ∃ prepared tx, smallPrepare height targetHeight = some (.ok prepared) ∧
      buildPreparedPrivacyTransaction Curve.small smallBuild prepared (smallRings prepared) smallDraw
        = .ok tx ∧
      (smallUtxo 0 height).key ∈ prepared.inputs.map fun i => (i.input.txHash, i.input.outputIndex) := by
  unfold smallSend at h
  split at h
  case h_2 => simp at h
  case h_1 prepared hprepare =>
    split at h
    case h_2 => simp at h
    case h_1 tx hbuild =>
      refine ⟨prepared, tx, hprepare, hbuild, ?_⟩
      simpa [smallUtxo, Utxo.key] using h

/-- An ordinary send. -/
theorem send_conserves_small :
    ∃ prepared tx selected paid change dummies,
      smallPrepare 10 1000 = some (.ok prepared) ∧
      Conserved Curve.small (smallBalance 10) (smallRequest 1000) (.single smallKeys) prepared smallDraw tx
        selected paid change dummies := by
  obtain ⟨prepared, tx, hprepare, hbuild, -⟩ :=
    smallSend_eq_some (show smallSend 10 1000 = some true by decide +kernel)
  obtain ⟨selected, paid, change, dummies, h⟩ :=
    (send_conserves Curve.small (smallBalance 10) (smallRequest 1000) (.single smallKeys) smallDraws).2
      prepared hprepare smallBuild (smallRings prepared) smallDraw tx hbuild
  exact ⟨prepared, tx, selected, paid, change, dummies, hprepare, h⟩

/-- At the largest height an output one block old is spent, where the least age is a hundred. -/
theorem send_takes_young_output :
    (smallRequest (2 ^ 64 - 1)).context.minOutputAge = 100 ∧
      ∃ prepared tx, smallPrepare (2 ^ 64 - 2) (2 ^ 64 - 1) = some (.ok prepared) ∧
        buildPreparedPrivacyTransaction Curve.small smallBuild prepared (smallRings prepared) smallDraw
          = .ok tx ∧
        ∃ u ∈ (smallBalance (2 ^ 64 - 2)).utxos,
          u.key ∈ prepared.inputs.map (fun i => (i.input.txHash, i.input.outputIndex)) ∧
          ¬u.height + (smallRequest (2 ^ 64 - 1)).context.minOutputAge ≤ 2 ^ 64 - 1 := by
  refine ⟨by decide +kernel, ?_⟩
  obtain ⟨prepared, tx, hprepare, hbuild, hspent⟩ :=
    smallSend_eq_some (show smallSend (2 ^ 64 - 2) (2 ^ 64 - 1) = some true by decide +kernel)
  refine ⟨prepared, tx, hprepare, hbuild, smallUtxo 0 (2 ^ 64 - 2), mem_cons_self, hspent, ?_⟩
  decide +kernel

end CoinCync.Wallet
