import CoinCync.KeyImages
import CoinCync.Lib.Versioned
import CoinCync.Template

/-!
# Admission beside canonical updates

`add_with_chain` validates a transaction against the chain without any lock on the mempool, while
blocks are connected and `remove_confirmed` cleans up after them. Here any number of these run at
once, one load or one locked section at a time. A canonical update counts itself in, writes the
chain, raises the generation, counts itself out, and then cleans the mempool under its lock. An
admission asks for a stable generation, validates, takes the lock of the mempool, asks again, and
inserts if the answer is the same. `System.knows_of_exec` is what each step has learned of the run.
-/

namespace CoinCync

open Versioned List Option Function Run

variable {E : Env}
variable {n : Node} {j : ℕ}

/-! ## The system -/

/-- Where `stable_generation` is between its loads. -/
inductive Probe
  | start
  | quiet
  | loaded (generation : ℕ)
deriving DecidableEq

/-- One load of `stable_generation`; the first or the third may answer. -/
def stableGeneration (c : Cell Node) : Probe → Probe ⊕ Option ℕ
  | .start => if c.writers = 0 then .inl .quiet else .inr none
  | .quiet => .inl (.loaded c.version)
  | .loaded generation => .inr (if c.writers = 0 then some generation else none)

/-- How a call fails. -/
inductive AdmissionError
  | mempool (e : MempoolError)
  /-- The chain state changed in every attempt. -/
  | invalidState
deriving DecidableEq

/-- Where a call of `add_with_chain` is, and its attempts left. -/
inductive AdmissionPhase
  | prechecks
  | probing (left : ℕ) (probe : Probe)
  | validating (left generation : ℕ)
  | waiting (left generation : ℕ) (verdict : Except TxError Unit)
  | checking (left generation : ℕ) (verdict : Except TxError Unit) (probe : Probe)
  | checked (generation : ℕ) (verdict : Except TxError Unit)
  | done (result : Except AdmissionError Hash)
deriving DecidableEq

/-- `MAX_CHAIN_GENERATION_ATTEMPTS`. -/
def maxChainGenerationAttempts : ℕ := 4

/-- What the calls submit and the updates connect. -/
structure Workload where
  tx : ℕ → Transaction
  block : ℕ → Block

/-- The chain, the mempool and all calls. -/
structure System where
  chain : Cell Node
  /-- The last write of the update left the key images of its block spent. -/
  applied : ℕ → Bool
  /-- `remove_confirmed` has run for the update. -/
  cleaned : ℕ → Bool
  mempool : Mempool
  /-- The call that holds the write lock of the mempool. -/
  lock : Option ℕ
  phase : ℕ → AdmissionPhase

/-- A step of a call, of an update, or its cleanup. -/
inductive SystemEvent
  | admission (i now : ℕ)
  | update (e : Event Node)
  | cleanup (j : ℕ)

/-- The chain has the key images of the block. -/
def Spends (b : Block) (n : Node) : Prop := ∀ ki ∈ b.keyImages, ki ∈ n.utxos.keyImages

instance (b : Block) (n : Node) : Decidable (Spends b n) :=
  inferInstanceAs (Decidable (∀ ki ∈ b.keyImages, ki ∈ n.utxos.keyImages))

namespace System

/-- Before any call. -/
def start (n : Node) (m : Mempool) : System :=
  ⟨Cell.new n, fun _ => false, fun _ => false, m, none, fun _ => .prechecks⟩

/-- Call `i` goes on to a phase. -/
def setPhase (s : System) (i : ℕ) (p : AdmissionPhase) : System :=
  { s with phase := Function.update s.phase i p }

variable (K : MempoolEnv E) (w : Workload)

/-- One step of `add_with_chain` and `retry_stable_admission`. -/
def addWithChainStep (s : System) (i now : ℕ) : Option System :=
  match s.phase i with
  | .prechecks =>
    match preflightCheck K (w.tx i) with
    | .error e => some (s.setPhase i (.done (.error (.mempool e))))
    | .ok _ => some (s.setPhase i (.probing maxChainGenerationAttempts .start))
  | .probing 0 _ => some (s.setPhase i (.done (.error .invalidState)))
  | .probing (left + 1) probe =>
    match stableGeneration s.chain probe with
    | .inl probe => some (s.setPhase i (.probing (left + 1) probe))
    | .inr none => some (s.setPhase i (.probing left .start))
    | .inr (some generation) => some (s.setPhase i (.validating left generation))
  | .validating left generation =>
    some (s.setPhase i (.waiting left generation
      (s.chain.value.validateTransaction K.toValidator (w.tx i))))
  | .waiting left generation verdict =>
    if s.lock = none then
      some { s.setPhase i (.checking left generation verdict .start) with lock := some i }
    else none
  | .checking left generation verdict probe =>
    match stableGeneration s.chain probe with
    | .inl probe => some (s.setPhase i (.checking left generation verdict probe))
    | .inr seen =>
      if seen = some generation then some (s.setPhase i (.checked generation verdict))
      else some { s.setPhase i (.probing left .start) with lock := none }
  | .checked _ (.error e) =>
    some { s.setPhase i (.done (.error (.mempool (.tx e)))) with lock := none }
  | .checked _ (.ok _) =>
    some { s.setPhase i (.done ((s.mempool.add K (w.tx i) now).2.mapError .mempool)) with
      mempool := (s.mempool.add K (w.tx i) now).1, lock := none }
  | .done _ => none

/-- A write decides whether the update has applied its block. -/
def appliedAfter (s : System) : Event Node → ℕ → Bool
  | .write j n => Function.update s.applied j (decide (Spends (w.block j) n))
  | .enter _ | .raise _ | .leave _ => s.applied

/-- `state_updates_in_progress` is an `AtomicU32`, `state_generation` an `AtomicU64`. -/
def step (s : System) : SystemEvent → Option System
  | .admission i now => s.addWithChainStep K w i now
  | .update e =>
    (Versioned.step (2 ^ 32) (2 ^ 64) s.chain e).map fun c =>
      { s with chain := c, applied := s.appliedAfter w e }
  | .cleanup j =>
    if s.lock = none ∧ s.chain.phase j = .finished ∧ s.applied j = true ∧ s.cleaned j = false then
      some { s with
        mempool := s.mempool.removeConfirmed K (w.block j).transactions
        cleaned := Function.update s.cleaned j true }
    else none

/-- The step wraps neither counter. -/
def Fits (s : System) : SystemEvent → Prop
  | .update e => Versioned.Fits (2 ^ 32) (2 ^ 64) s.chain e
  | .admission _ _ | .cleanup _ => True

instance (s : System) : ∀ e, Decidable (s.Fits e)
  | .update e => inferInstanceAs (Decidable (Versioned.Fits _ _ s.chain e))
  | .admission _ _ | .cleanup _ => inferInstanceAs (Decidable True)

/-- Runs that wrap neither counter. -/
def exec (s : System) (es : List SystemEvent) : Option System :=
  Run.exec (Run.guarded (step K w) Fits) s es

end System

/-! ## What `add_block` writes -/

/-- A connected block has its key images spent. -/
lemma Ledger.keyImages_of_connect {l l' : Ledger} {b : Block} (h : l.connect E b = some l') :
    ∀ ki ∈ b.keyImages, ki ∈ l'.utxos.keyImages := by
  intro ki hki
  obtain ⟨-, -, hu, -⟩ := Ledger.connect_eq_some h
  rw [hu, UtxoSet.keyImages_connectBlock]
  exact Finset.mem_union_right _ (mem_toFinset.mpr hki)

/-- After a connect loop the last block has. -/
lemma Ledger.Connects.keyImages_last {R : Rules E} {l l' : Ledger} {b : Block}
    (h : Ledger.Connects R s (g ++ [b]) l l') : ∀ ki ∈ b.keyImages, ki ∈ l'.utxos.keyImages := by
  generalize hg : g ++ [b] = g' at h
  induction h generalizing g with
  | nil => simp at hg
  | cons _ hc hrest ih =>
    cases g with
    | nil =>
      obtain ⟨rfl, rfl⟩ := cons.inj hg
      cases hrest
      exact Ledger.keyImages_of_connect hc
    | cons y g => exact ih (cons.inj hg).2

/-- An accepted block has its key images spent. -/
lemma Added.spends {R : Rules E} {b : Block} (h : Added R n c b n' r c')
    (hr : r = .ok .accepted ∨ ∃ txs, r = .ok (.acceptedReorg txs)) : Spends b n' := by
  cases h with
  | stopped hpre =>
    rcases hr with rfl | ⟨txs, rfl⟩
    · exact absurd rfl (preCheck_ne_accepted hpre).1
    · exact absurd rfl ((preCheck_ne_accepted hpre).2 txs)
  | stored _ _ hno hno' =>
    rcases hr with rfl | ⟨txs, rfl⟩
    · exact absurd rfl hno
    · exact absurd rfl (hno' txs)
  | @extended _ l _ _ hconnect hforget =>
    rw [hforget.eq]
    intro ki hki
    show ki ∈ (l.utxos.evictOldOutputs b.height 1000).keyImages
    rw [UtxoSet.toUtxoCore_evictOldOutputs]
    exact Ledger.keyImages_of_connect hconnect ki hki
  | failed => simp at hr
  | reorged _ _ _ _ _ hl2 => exact hl2.keyImages_last

/-! ## Steps -/

/-- The part of an event that concerns the chain. -/
def SystemEvent.update? : SystemEvent → Option (Event Node)
  | .update e => some e
  | .admission _ _ | .cleanup _ => none

namespace System

variable {K : MempoolEnv E} {w : Workload} {s : System} {es : List SystemEvent} {e : SystemEvent}
  {i now : ℕ} {verdict : Except TxError Unit}

@[simp] lemma phase_setPhase (s : System) (i : ℕ) (p : AdmissionPhase) :
    (s.setPhase i p).phase = update s.phase i p := rfl

@[simp] lemma chain_setPhase (s : System) (i : ℕ) (p : AdmissionPhase) :
    (s.setPhase i p).chain = s.chain := rfl

/-- The phases in which a call holds the lock. -/
def Holding (p : AdmissionPhase) : Prop :=
  (∃ left g verdict probe, p = .checking left g verdict probe) ∨ ∃ g verdict, p = .checked g verdict

/-- What no step of an admission touches, apart from its own lock. -/
structure Framed (s t : System) (i : ℕ) : Prop where
  chain : t.chain = s.chain
  applied : t.applied = s.applied
  cleaned : t.cleaned = s.cleaned
  phase : ∀ i', i' ≠ i → t.phase i' = s.phase i'
  lock : t.lock = s.lock ∨ s.lock = none ∨ Holding (s.phase i)

lemma framed_of_addWithChainStep (h : s.addWithChainStep K w i now = some t) : Framed s t i := by
  obtain ⟨p, m, l, rfl, hl⟩ : ∃ p m l, t = { s.setPhase i p with mempool := m, lock := l } ∧
      (l = s.lock ∨ s.lock = none ∨ Holding (s.phase i)) := by
    unfold addWithChainStep at h
    split at h
    all_goals try split at h
    all_goals try split at h
    all_goals first
      | exact ⟨_, _, _, (some.inj h).symm, by simp_all [Holding]⟩
      | cases h
  exact ⟨rfl, rfl, rfl, fun i' hi => update_of_ne hi _ _, hl⟩

/-- A load goes on from the first without an update, from the second with the version. -/
lemma stableGeneration_inl {next : Probe} (h : stableGeneration c probe = .inl next) :
    (probe = .start ∧ c.writers = 0 ∧ next = .quiet) ∨
      probe = .quiet ∧ next = .loaded c.version := by
  cases probe <;> simp [stableGeneration, ite_eq_iff] at h <;> simp [h]

/-- It answers with the generation it loaded. -/
lemma stableGeneration_inr (h : stableGeneration c probe = .inr (some g)) : probe = .loaded g := by
  cases probe <;> simp [stableGeneration, ite_eq_iff] at h
  simp [h]

/-- What a step of an update does. -/
lemma update_eq_some {e : Event Node} (h : s.step K w (.update e) = some t) :
    Versioned.step (2 ^ 32) (2 ^ 64) s.chain e = some t.chain ∧
      t = { s with chain := t.chain, applied := s.appliedAfter w e } := by
  obtain ⟨c, hc, rfl⟩ := map_eq_some_iff.mp h
  exact ⟨hc, rfl⟩

/-- An update that writes what `add_block` leaves has applied its block. -/
lemma applied_of_added {R : Rules E} (hadded : Added R n c (w.block j) n' r c')
    (hr : r = .ok .accepted ∨ ∃ txs, r = .ok (.acceptedReorg txs))
    (h : s.step K w (.update (.write j n')) = some t) : t.applied j = true := by
  rw [(update_eq_some h).2]
  simp [appliedAfter, hadded.spends hr]

/-- What a cleanup needs and does. -/
lemma cleanup_eq_some (h : s.step K w (.cleanup j) = some t) :
    (s.lock = none ∧ s.chain.phase j = .finished ∧ s.applied j = true ∧ s.cleaned j = false) ∧
      t = { s with
        mempool := s.mempool.removeConfirmed K (w.block j).transactions
        cleaned := Function.update s.cleaned j true } := by
  simp only [step, ite_none_right_eq_some, some.injEq] at h
  exact ⟨h.1, h.2.symm⟩

/-- The updates of a run, on the chain alone. -/
lemma chain_of_exec (h : exec K w s es = some t) :
    Versioned.Runs (2 ^ 32) (2 ^ 64) s.chain (es.filterMap SystemEvent.update?) t.chain := by
  refine exec_filterMap chain SystemEvent.update? ?_ ?_ h
  · intro s e t k hstep hk
    cases e with
    | update e' =>
      cases hk
      obtain ⟨hfits, hstep⟩ := guarded_eq_some.mp hstep
      exact guarded_eq_some.mpr ⟨hfits, (update_eq_some hstep).1⟩
    | admission i now | cleanup j => simp [SystemEvent.update?] at hk
  · intro s e t hstep hk
    cases e with
    | update e' => simp [SystemEvent.update?] at hk
    | admission i now => exact (framed_of_addWithChainStep hstep).chain
    | cleanup j => rw [(cleanup_eq_some hstep).2]

/-- Generations only grow. -/
lemma version_le_of_exec (h : exec K w s es = some t) : s.chain.version ≤ t.chain.version :=
  (value_or_writing (chain_of_exec h)).1

/-! ## What an admission knows -/

/-- Call `i` has validated after its load of generation `g`. -/
def ReadAt (K : MempoolEnv E) (w : Workload) (s₀ : System) (es : List SystemEvent) (i g : ℕ)
    (verdict : Except TxError Unit) : Prop :=
  ∃ es₀ now rest s, es = es₀ ++ .admission i now :: rest ∧ exec K w s₀ es₀ = some s ∧
    (∃ left, s.phase i = .validating left g) ∧ g ≤ s.chain.version ∧
    verdict = s.chain.value.validateTransaction K.toValidator (w.tx i)

/-- The final check of call `i` began without updates; nothing was cleaned since. -/
def CheckBegan (K : MempoolEnv E) (w : Workload) (s₀ : System) (es : List SystemEvent) (i g : ℕ)
    (verdict : Except TxError Unit) (bound : ℕ → Prop) : Prop :=
  ∃ es₁ now rest s, es = es₁ ++ .admission i now :: rest ∧ exec K w s₀ es₁ = some s ∧
    s.lock = some i ∧ s.chain.writers = 0 ∧ bound s.chain.version ∧
    ReadAt K w s₀ es₁ i g verdict ∧ ∀ j, .cleanup j ∉ rest

/-- What call `i` knows in a phase, after the run `es` to `s`. -/
def Knows (K : MempoolEnv E) (w : Workload) (s₀ : System) (es : List SystemEvent) (s : System)
    (i : ℕ) : AdmissionPhase → Prop
  | .probing _ (.loaded g) => g ≤ s.chain.version
  | .validating _ g => g ≤ s.chain.version
  | .waiting _ g verdict => ReadAt K w s₀ es i g verdict
  | .checking _ g verdict .start => s.lock = some i ∧ ReadAt K w s₀ es i g verdict
  | .checking _ g verdict .quiet =>
    s.lock = some i ∧ CheckBegan K w s₀ es i g verdict fun _ => True
  | .checking _ g verdict (.loaded g') =>
    s.lock = some i ∧ CheckBegan K w s₀ es i g verdict (· ≤ g')
  | .checked g verdict => s.lock = some i ∧ CheckBegan K w s₀ es i g verdict (· ≤ g)
  | _ => True

lemma ReadAt.append (h : ReadAt K w s₀ es i g verdict) : ReadAt K w s₀ (es ++ [e]) i g verdict := by
  obtain ⟨es0, now, rest, s, rfl, hs⟩ := h
  exact ⟨es0, now, rest ++ [e], s, by simp, hs⟩

/-- It stays so until a cleanup. -/
lemma CheckBegan.append (h : CheckBegan K w s₀ es i g verdict bound) (he : ∀ j, e ≠ .cleanup j)
    (hbound : ∀ es1 rest s, es = es1 ++ rest → exec K w s₀ es1 = some s → bound s.chain.version →
      bound' s.chain.version) : CheckBegan K w s₀ (es ++ [e]) i g verdict bound' := by
  obtain ⟨es1, now, rest, s, rfl, hs, hlock, hquiet, hver, hread, hclean⟩ := h
  refine ⟨es1, now, rest ++ [e], s, by simp, hs, hlock, hquiet, hbound _ _ s rfl hs hver, hread, ?_⟩
  intro j hmem
  rcases mem_append.mp hmem with hmem | hmem
  · exact hclean j hmem
  · exact he j (mem_singleton.mp hmem).symm

/-- A step of another thread leaves a call what it knows. -/
lemma Knows.frame (hk : Knows K w s₀ es s i p) (hver : s.chain.version ≤ t.chain.version)
    (hlock : s.lock = some i → t.lock = some i ∧ ∀ j, e ≠ .cleanup j) :
    Knows K w s₀ (es ++ [e]) t i p := by
  cases p with
  | prechecks | done result => trivial
  | probing left probe =>
    cases probe with
    | start => trivial
    | quiet => trivial
    | loaded g => exact le_trans hk hver
  | validating left g => exact le_trans hk hver
  | waiting left g verdict => exact ReadAt.append hk
  | checking left g verdict probe =>
    cases probe with
    | start => exact ⟨(hlock hk.1).1, hk.2.append⟩
    | quiet => exact ⟨(hlock hk.1).1, hk.2.append (hlock hk.1).2 fun _ _ _ _ _ h => h⟩
    | loaded g' => exact ⟨(hlock hk.1).1, hk.2.append (hlock hk.1).2 fun _ _ _ _ _ h => h⟩
  | checked g verdict => exact ⟨(hlock hk.1).1, hk.2.append (hlock hk.1).2 fun _ _ _ _ _ h => h⟩

/-- A phase that holds the lock holds it. -/
lemma Knows.lock_eq (hk : Knows K w s₀ es s i p) (hp : Holding p) : s.lock = some i := by
  obtain ⟨left, g, verdict, probe, rfl⟩ | ⟨g, verdict, rfl⟩ := hp
  · cases probe <;> exact hk.1
  · exact hk.1

/-- A call does not take the lock from another. -/
lemma lock_of_addWithChainStep (hi : i ≠ i') (hk : Knows K w s₀ es s i' (s.phase i'))
    (h : s.addWithChainStep K w i' now = some t) (hlock : s.lock = some i) : t.lock = some i := by
  obtain hsame | hfree | hholding := (framed_of_addWithChainStep h).lock
  · rw [hsame, hlock]
  · simp [hfree] at hlock
  · exact absurd (some.inj (hlock.symm.trans (hk.lock_eq hholding))) hi

/-- A step leaves a call what it knows in its new phase. -/
lemma Knows.addWithChainStep (hrun : exec K w s₀ es = some s) (hk : Knows K w s₀ es s i (s.phase i))
    (h : s.addWithChainStep K w i now = some t) :
    Knows K w s₀ (es ++ [.admission i now]) t i (t.phase i) := by
  have hne : ∀ j, SystemEvent.admission i now ≠ .cleanup j := fun j => by simp
  unfold System.addWithChainStep at h
  cases hp : s.phase i with
  | prechecks =>
    rw [hp] at h
    dsimp only at h
    split at h <;> (obtain rfl := some.inj h; simp [Knows])
  | probing left probe =>
    rw [hp] at h hk
    cases left with
    | zero =>
      cases h
      simp [Knows]
    | succ left =>
      dsimp only at h
      split at h
      · rename_i hload
        cases h
        obtain ⟨-, -, rfl⟩ | ⟨-, rfl⟩ := stableGeneration_inl hload <;> simp [Knows]
      · cases h
        simp [Knows]
      · rename_i hload
        cases h
        obtain rfl := stableGeneration_inr hload
        simpa [Knows] using hk
  | validating left g =>
    rw [hp] at h hk
    cases h
    simp only [phase_setPhase, update_self]
    exact ⟨es, now, [], s, rfl, hrun, ⟨left, hp⟩, hk, rfl⟩
  | waiting left g verdict =>
    rw [hp] at h hk
    simp only [ite_none_right_eq_some, some.injEq] at h
    obtain ⟨-, rfl⟩ := h
    simp only [phase_setPhase, update_self]
    exact ⟨rfl, hk.append⟩
  | checking left g verdict probe =>
    rw [hp] at h hk
    dsimp only at h
    split at h
    · rename_i hload
      cases h
      simp only [phase_setPhase, update_self]
      obtain ⟨rfl, hquiet, rfl⟩ | ⟨rfl, rfl⟩ := stableGeneration_inl hload
      · -- this is the load the final check begins with
        exact ⟨hk.1, es, now, [], s, rfl, hrun, hk.1, hquiet, trivial, hk.2, by simp⟩
      · refine ⟨hk.1, hk.2.append hne fun es1 rest s1 hsplit hs1 _ => ?_⟩
        have hrest := hrun
        rw [hsplit] at hrest
        obtain ⟨s1', hs1', hrest⟩ := exec_append_eq_some.mp hrest
        obtain rfl := mem_unique hs1 hs1'
        exact version_le_of_exec hrest
    · rename_i hload
      split at h
      · subst_vars
        obtain rfl := stableGeneration_inr hload
        cases h
        simp only [phase_setPhase, update_self]
        exact ⟨hk.1, hk.2.append hne fun _ _ _ _ _ h => h⟩
      · cases h
        simp [Knows]
  | checked g verdict =>
    rw [hp] at h
    cases verdict with
    | error e =>
      cases h
      simp [Knows]
    | ok u =>
      cases h
      simp [Knows]
  | done result =>
    rw [hp] at h
    cases h

variable (h : exec K w (start n m) es = some s)
include h

/-- In every run, every call knows what its phase says. -/
lemma knows_of_exec : ∀ i, Knows K w (start n m) es s i (s.phase i) := by
  refine exec_induction (s := start n m)
    (P := fun es s => ∀ i, Knows K w (start n m) es s i (s.phase i)) (fun i => trivial) ?_ h
  intro es s e t hrun hk hstep i
  obtain ⟨hfits, hstep⟩ := guarded_eq_some.mp hstep
  cases e with
  | admission i' now =>
    by_cases hi : i = i'
    · subst hi
      exact (hk i).addWithChainStep hrun hstep
    · have hframe := framed_of_addWithChainStep hstep
      rw [hframe.phase i hi]
      refine (hk i).frame (by rw [hframe.chain]) fun hlock => ?_
      exact ⟨lock_of_addWithChainStep hi (hk i') hstep hlock, fun j => by simp⟩
  | update e =>
    obtain ⟨hcell, heq⟩ := update_eq_some hstep
    rw [heq]
    refine (hk i).frame ?_ fun hi => ⟨hi, fun j => by simp⟩
    show s.chain.version ≤ t.chain.version
    rcases version_of_step hfits hcell with ⟨-, hver⟩ | ⟨-, hver⟩ <;> omega
  | cleanup j =>
    obtain ⟨⟨hfree, -⟩, rfl⟩ := cleanup_eq_some hstep
    refine (hk i).frame (le_refl _) fun hlock => ?_
    simp [hfree] at hlock

lemma counted_of_exec : s.chain.Counted (2 ^ 32) :=
  (Cell.counted_new n (by decide)).exec (chain_of_exec h)

/-! ## An insertion -/

/-- The final check of call `i` begins: its transaction is valid on the present chain, which nobody
updates. -/
structure FinalCheck (K : MempoolEnv E) (w : Workload) (s₀ : System) (es : List SystemEvent)
    (i g : ℕ) (s : System) : Prop where
  run : exec K w s₀ es = some s
  lock : s.lock = some i
  quiet : s.chain.writers = 0
  generation : s.chain.version = g
  validated : ∃ es₀ now rest r left, es = es₀ ++ .admission i now :: rest ∧
    exec K w s₀ es₀ = some r ∧ r.phase i = .validating left g ∧ r.chain.value = s.chain.value
  valid : s.chain.value.validateTransaction K.toValidator (w.tx i) = .ok ()

/-- A call about to insert began its final check so; since then only later updates have written, and
nothing was cleaned. -/
lemma finalCheck_of_exec (hp : s.phase i = .checked g (.ok ())) :
    ∃ es1 now es2 s1, es = es1 ++ .admission i now :: es2 ∧
      FinalCheck K w (start n m) es1 i g s1 ∧
      (∀ j n', .update (.write j n') ∈ es2 → .update (.enter j) ∈ es2) ∧
      ∀ j, .cleanup j ∉ es2 := by
  have hk := knows_of_exec h i
  rw [hp] at hk
  obtain ⟨-, es1, now, es2, s1, rfl, hs1, hlock, hquiet, hver, hread, hclean⟩ := hk
  obtain ⟨es0, now0, rest, r, rfl, hr, ⟨left, hphase⟩, hg, hverdict⟩ := hread
  -- between the validation and the check neither the generation nor the chain has moved
  obtain ⟨r', hr', hrest⟩ := exec_append_eq_some.mp hs1
  obtain rfl := mem_unique hr hr'
  have hle := version_le_of_exec hrest
  have hvalue : s1.chain.value = r.chain.value :=
    value_eq (counted_of_exec hr) (chain_of_exec hrest) (by omega) hquiet
  refine ⟨_, now, es2, s1, rfl, ⟨hs1, hlock, hquiet, by omega, ?_, ?_⟩, ?_, hclean⟩
  · exact ⟨es0, now0, rest, r, left, rfl, hr, hphase, hvalue.symm⟩
  · rw [hvalue, ← hverdict]
  · intro j n' hwrite
    obtain ⟨s1', hs1', htail⟩ := exec_append_eq_some.mp h
    obtain rfl := mem_unique hs1 hs1'
    have hidle := (counted_of_exec hs1).not_active hquiet j
    have hmem : Event.write j n' ∈ es2.filterMap SystemEvent.update? :=
      mem_filterMap.mpr ⟨_, hwrite, rfl⟩
    have henter := enter_of_write (chain_of_exec htail) hidle hmem
    obtain ⟨e, he, heq⟩ := mem_filterMap.mp henter
    cases e with
    | update e' =>
      cases heq
      simpa using he
    | admission i' now' | cleanup j' => cases heq

omit h

/-! ## Key images of cleaned blocks -/

/-- The last write of update `j` in the run, and what came after it. -/
def LastWrite (es : List SystemEvent) (j : ℕ) (n : Node) (rest : List SystemEvent) : Prop :=
  (∃ es₁, es = es₁ ++ .update (.write j n) :: rest) ∧ ∀ n', .update (.write j n') ∉ rest

/-- The last write of update `j` spent the key image, a later one did not. -/
def Returned (es : List SystemEvent) (j : ℕ) (ki : KeyImage) : Prop :=
  ∃ n rest, LastWrite es j n rest ∧ ki ∈ n.utxos.keyImages ∧
    ∃ j' n', .update (.write j' n') ∈ rest ∧ ki ∉ n'.utxos.keyImages

/-- Until the update writes again. -/
lemma LastWrite.append (h : LastWrite es j n rest) (hmore : ∀ n', .update (.write j n') ∉ more) :
    LastWrite (es ++ more) j n (rest ++ more) := by
  obtain ⟨⟨es1, rfl⟩, hrest⟩ := h
  refine ⟨⟨es1, by simp⟩, fun n' hmem => ?_⟩
  rcases mem_append.mp hmem with hmem | hmem
  · exact hrest n' hmem
  · exact hmore n' hmem

lemma Returned.append (h : Returned es j ki) (hmore : ∀ n', .update (.write j n') ∉ more) :
    Returned (es ++ more) j ki := by
  obtain ⟨n, rest, hlast, hki, j', n', hmem, hn'⟩ := h
  exact ⟨n, rest ++ more, hlast.append hmore, hki, j', n', mem_append_left _ hmem, hn'⟩

/-- An applied block's key images are spent, or returned by a later write. -/
def Applied (w : Workload) (es : List SystemEvent) (s : System) (j : ℕ) : Prop :=
  ∃ n rest, LastWrite es j n rest ∧ Spends (w.block j) n ∧ ∀ ki ∈ (w.block j).keyImages,
    ki ∈ s.chain.value.utxos.keyImages ∨
      ∃ j' n', .update (.write j' n') ∈ rest ∧ ki ∉ n'.utxos.keyImages

/-- A step that is no write of the update leaves its block applied. -/
lemma Applied.append (h : Applied w es s j) (he : ∀ n', e ≠ .update (.write j n'))
    (hvalue : (∃ j', e = .update (.write j' t.chain.value)) ∨ t.chain.value = s.chain.value) :
    Applied w (es ++ [e]) t j := by
  obtain ⟨n, rest, hlast, hspends, himages⟩ := h
  refine ⟨n, rest ++ [e], hlast.append fun n' hmem => he n' (mem_singleton.mp hmem).symm,
    hspends, fun ki hki => ?_⟩
  rcases hvalue with ⟨j', rfl⟩ | hsame
  · by_cases hmem : ki ∈ t.chain.value.utxos.keyImages
    · exact .inl hmem
    · exact .inr ⟨j', _, by simp, hmem⟩
  · rw [hsame]
    refine (himages ki hki).imp id ?_
    rintro ⟨j', n', hmem, hn'⟩
    exact ⟨j', n', mem_append_left _ hmem, hn'⟩

include h

lemma applied_of_exec : ∀ j, s.applied j = true → Applied w es s j := by
  refine exec_induction
    (P := fun es s => ∀ j, s.applied j = true → Applied w es s j) (fun j hj => ?_) ?_ h
  · simp [start] at hj
  intro es s e t _ hs hstep j hj
  obtain ⟨-, hstep⟩ := guarded_eq_some.mp hstep
  cases e with
  | admission i now =>
    have hframe := framed_of_addWithChainStep hstep
    rw [hframe.applied] at hj
    exact (hs j hj).append (by simp) (.inr (by rw [hframe.chain]))
  | cleanup j' =>
    obtain ⟨-, rfl⟩ := cleanup_eq_some hstep
    exact (hs j hj).append (by simp) (.inr rfl)
  | update e =>
    obtain ⟨hcell, heq⟩ := update_eq_some hstep
    rw [heq] at hj
    rcases value_of_step hcell with ⟨j', rfl⟩ | ⟨hno, hsame⟩
    · by_cases hjj : j = j'
      · subst hjj
        have hspends : Spends (w.block j) t.chain.value := by simpa [appliedAfter] using hj
        exact ⟨t.chain.value, [], ⟨⟨es, rfl⟩, by simp⟩, hspends,
          fun ki hki => .inl (hspends ki hki)⟩
      · have hj : s.applied j = true := by
          simpa [appliedAfter, update_of_ne hjj] using hj
        exact (hs j hj).append (by simp [Ne.symm hjj]) (.inl ⟨j', rfl⟩)
    · have hj : s.applied j = true := by
        cases e with
        | write j' n' => exact absurd rfl (hno j' n')
        | enter j' | raise j' | leave j' => exact hj
      exact (hs j hj).append (fun n' heq => hno j n' (SystemEvent.update.inj heq)) (.inr hsame)

/-- An update that is cleaned up after has applied its block. -/
lemma finished_of_cleaned : ∀ j, s.cleaned j = true → s.chain.phase j = .finished ∧ s.applied j = true := by
  refine exec_induction (P := fun _ s => ∀ j, s.cleaned j = true →
    s.chain.phase j = .finished ∧ s.applied j = true) (fun j hj => ?_) ?_ h
  · simp [start] at hj
  intro es s e t _ hs hstep j hj
  obtain ⟨-, hstep⟩ := guarded_eq_some.mp hstep
  cases e with
  | admission i now =>
    have hframe := framed_of_addWithChainStep hstep
    rw [hframe.chain, hframe.applied]
    exact hs j (hframe.cleaned ▸ hj)
  | cleanup j' =>
    obtain ⟨⟨-, hfinished, happlied, -⟩, rfl⟩ := cleanup_eq_some hstep
    by_cases hjj : j = j'
    · subst hjj
      exact ⟨hfinished, happlied⟩
    · exact hs j (by simpa [update_of_ne hjj] using hj)
  | update e =>
    obtain ⟨hcell, heq⟩ := update_eq_some hstep
    rw [heq] at hj
    obtain ⟨hfinished, happlied⟩ := hs j hj
    have hphase : t.chain.phase j = .finished := by
      by_contra hne
      have hcases := phase_of_step hcell (by rw [hfinished]; exact hne)
      simp [hfinished] at hcases
    refine ⟨hphase, ?_⟩
    rw [heq]
    cases e with
    | write j' n' =>
      have hjj : j ≠ j' := by
        rintro rfl
        have hwriting := writing_of_write hcell
        simp [hfinished] at hwriting
      simpa [appliedAfter, update_of_ne hjj] using happlied
    | enter j' | raise j' | leave j' => exact happlied

/-- After the cleanup of an update, it writes nothing. -/
lemma not_write_of_cleaned (hj : s.cleaned j = true) (hmore : exec K w s more = some t) (n' : Node) :
    .update (.write j n') ∉ more := by
  intro hmem
  refine not_write_of_finished (chain_of_exec hmore) (finished_of_cleaned h j hj).1 (v := n') ?_
  exact mem_filterMap.mpr ⟨_, hmem, rfl⟩

omit h

/-- Only a cleanup cleans. -/
lemma cleaned_of_exec (h : exec K w s es = some t) (hno : ∀ j, .cleanup j ∉ es) :
    t.cleaned = s.cleaned := by
  induction es generalizing s with
  | nil => rw [some.inj h]
  | cons e es ih =>
    obtain ⟨u, hu, h⟩ := exec_cons_eq_some.mp h
    rw [ih h fun j hmem => hno j (mem_cons_of_mem _ hmem)]
    obtain ⟨-, hstep⟩ := guarded_eq_some.mp hu
    cases e with
    | admission i now => exact (framed_of_addWithChainStep hstep).cleaned
    | update e => rw [(update_eq_some hstep).2]
    | cleanup j => exact absurd mem_cons_self (hno j)

/-- What a step does to the mempool. -/
lemma mempool_of_step (h : s.step K w e = some t) :
    (t.mempool = s.mempool ∧ t.cleaned = s.cleaned) ∨
      (∃ i now g, e = .admission i now ∧ s.phase i = .checked g (.ok ()) ∧
        t.mempool = (s.mempool.add K (w.tx i) now).1) ∨
      ∃ j, e = .cleanup j ∧ t.mempool = s.mempool.removeConfirmed K (w.block j).transactions := by
  cases e with
  | update e =>
    rw [(update_eq_some h).2]
    exact .inl ⟨rfl, rfl⟩
  | cleanup j => exact .inr (.inr ⟨j, rfl, by rw [(cleanup_eq_some h).2]⟩)
  | admission i now =>
    have hframe := framed_of_addWithChainStep h
    rw [hframe.cleaned]
    have h : s.addWithChainStep K w i now = some t := h
    unfold addWithChainStep at h
    split at h
    case h_8 g u hp =>
      cases h
      exact .inr (.inl ⟨i, now, g, rfl, hp, rfl⟩)
    all_goals refine .inl ⟨?_, rfl⟩
    all_goals try split at h
    all_goals try split at h
    all_goals first
      | rw [← some.inj h]; rfl
      | cases h

/-- The mempool of a run is a reachable one. -/
lemma mempool_reaches
    (hm : Run.Reaches (Mempool.step K) (fun _ _ => True) (Mempool.withMaxSize maxSize) m)
    (h : exec K w (start n m) es = some s) :
    Run.Reaches (Mempool.step K) (fun _ _ => True) (Mempool.withMaxSize maxSize) s.mempool := by
  refine (reaches_of_exec_guarded h).invariant (P := fun s => Run.Reaches (Mempool.step K)
    (fun _ _ => True) (Mempool.withMaxSize maxSize) s.mempool) hm ?_
  intro s e t hs _ hstep
  rcases mempool_of_step hstep with ⟨heq, -⟩ | ⟨i, now, g, -, -, heq⟩ | ⟨j, -, heq⟩
  · exact heq ▸ hs
  · exact hs.tail (i := .add (w.tx i) now) trivial (heq ▸ rfl)
  · exact hs.tail (i := .removeConfirmed (w.block j).transactions) trivial (heq ▸ rfl)

/-- A valid transaction spends no key image of the chain. -/
lemma unspent_of_validate (hpre : preflightCheck K tx = .ok ())
    (hok : n.validateTransaction K.toValidator tx = .ok ()) :
    ∀ ki ∈ tx.keyImages, ki ∉ n.utxos.keyImages := by
  intro ki hki
  obtain ⟨input, hin, rfl⟩ := mem_map.mp hki
  have hcb : tx.isCoinbase = false := by
    simp only [preflightCheck, Check.seq_eq_ok] at hpre
    simpa using hpre.1
  have hchecked := inputsChecked_of_validate hcb hok (ne_nil_of_mem hin)
  exact (checkTxNoDoubleSpend_eq_ok.mp hchecked.doubleSpend).2 input hin

/-- Whenever a call is about to insert, its validation read the chain as it was when the final check
began under the lock, and every write since is by an update begun since. No resident shares a key
image with a block already cleaned up after, unless a later write left it unspent. -/
theorem admission_never_races {n : Node} {m : Mempool} {maxSize : ℕ}
    (hm : Run.Reaches (Mempool.step K) (fun _ _ => True) (Mempool.withMaxSize maxSize) m)
    (h : exec K w (start n m) es = some s) :
    (∀ i g, s.phase i = .checked g (.ok ()) → ∃ es₁ now es₂ s₁,
      es = es₁ ++ .admission i now :: es₂ ∧ FinalCheck K w (start n m) es₁ i g s₁ ∧
      (∀ j n', .update (.write j n') ∈ es₂ → .update (.enter j) ∈ es₂) ∧
      ∀ j, .cleanup j ∉ es₂) ∧
    ∀ r ∈ s.mempool.transactions, ∀ j, s.cleaned j = true →
      ∀ ki ∈ r.2.tx.keyImages, ki ∈ (w.block j).keyImages → Returned es j ki := by
  refine ⟨fun _ _ hp => finalCheck_of_exec h hp, ?_⟩
  refine exec_induction (P := fun es s => ∀ r ∈ s.mempool.transactions,
    ∀ j, s.cleaned j = true → ∀ ki ∈ r.2.tx.keyImages, ki ∈ (w.block j).keyImages →
      Returned es j ki) (fun r _ j hj => ?_) ?_ h
  · simp [start] at hj
  intro es s e t hrun hs hguarded r hr j hj ki hki hkib
  obtain ⟨-, hstep⟩ := guarded_eq_some.mp hguarded
  have hsingle : exec K w s [e] = some t := exec_cons_eq_some.mpr ⟨t, hguarded, rfl⟩
  -- what was resident before and cleaned up after before stays so
  have hold : r ∈ s.mempool.transactions → s.cleaned j = true → Returned (es ++ [e]) j ki := by
    intro hr hj
    exact (hs r hr j hj ki hki hkib).append (not_write_of_cleaned hrun hj hsingle)
  rcases mempool_of_step hstep with ⟨heq, hcleaned⟩ | ⟨i, now, g, rfl, hp, heq⟩ | ⟨j', rfl, heq⟩
  · exact hold (heq ▸ hr) (hcleaned ▸ hj)
  · have hcleaned : s.cleaned j = true := (framed_of_addWithChainStep hstep).cleaned ▸ hj
    have hadd : s.mempool.step K (.add (w.tx i) now) = some t.mempool := heq ▸ rfl
    rcases (Mempool.step_cases hadd).mem hr with hr | ⟨hpre, hsubmits⟩
    · exact hold hr hcleaned
    -- the new resident was validated with the cleaned block's key images in the set, or returned
    have htx : w.tx i = r.2.tx := some.inj hsubmits
    obtain ⟨es1, now', es2, s1, rfl, hcheck, -, hclean⟩ := finalCheck_of_exec hrun hp
    obtain ⟨s1', hs1', htail⟩ := exec_append_eq_some.mp hrun
    obtain rfl := mem_unique hcheck.run hs1'
    have hsame : s.cleaned = s1.cleaned := cleaned_of_exec htail (by simpa using hclean)
    rw [hsame] at hcleaned
    obtain ⟨n', rest, hlast, hspends, himages⟩ :=
      applied_of_exec hcheck.run j (finished_of_cleaned hcheck.run j hcleaned).2
    have hunspent := unspent_of_validate (htx ▸ hpre) hcheck.valid ki (htx ▸ hki)
    have hreturned : Returned es1 j ki :=
      ⟨n', rest, hlast, hspends ki hkib, (himages ki hkib).resolve_left hunspent⟩
    rw [append_assoc]
    refine hreturned.append (not_write_of_cleaned hcheck.run hcleaned (t := t) ?_)
    exact exec_append_eq_some.mpr ⟨s, htail, hsingle⟩
  · rw [heq] at hr
    by_cases hjj : j = j'
    · subst hjj
      obtain ⟨tx, htx, hkitx⟩ := mem_flatMap.mp hkib
      have hdisjoint := (Mempool.coherent_of_reaches (mempool_reaches hm hrun)).removeConfirmed_disjoint
        hr tx htx ki (Mempool.mem_keyImages_of_spent hkitx)
      exact absurd hki hdisjoint
    · refine hold (Mempool.mem_of_mem_removeConfirmed hr) ?_
      rw [(cleanup_eq_some hstep).2] at hj
      simpa [update_of_ne hjj] using hj

end System

/-! ## Runs -/

/-- The chain of nine blocks and what follows on it. -/
def nineBlocksThen (ops : List Op) : Option Node :=
  Run.exec (step regtestRules) (genesisNode regtestRules none) ((emptyBlocks 9).map .addBlock ++ ops)

/-- The tenth block, with a transfer. -/
def transferBlock : Block := minedBlock 10 100000 [payTx 9001 [3, 4] 501 502]

/-- The first call submits the block's transfer, the others another one. -/
def raceWorkload : Workload where
  tx i := if i = 0 then payTx 9001 [3, 4] 501 502 else payTx 9002 [5, 6] 503 504
  block _ := transferBlock

/-- An update that writes `n`. -/
def updateEvents (j : ℕ) (n : Node) : List SystemEvent :=
  [.update (.enter j), .update (.write j n), .update (.raise j), .update (.leave j)]

/-- The nodes before and after the block, and after its rollback. -/
@[mk_iff]
structure RaceNodes (n n₁ n₂ : Node) : Prop where
  before : nineBlocksThen [] = some n
  after : nineBlocksThen [.addBlock transferBlock] = some n₁
  rolledBack : nineBlocksThen [.addBlock transferBlock, .rollback 9] = some n₂

/-- After the update with the block and its cleanup, the other call comes to its insertion. -/
theorem admission_never_races_after_cleanup :
    ∃ n n₁ n₂ s, RaceNodes n n₁ n₂ ∧
      System.exec regtestMempool raceWorkload (.start n (Mempool.withMaxSize 1000000))
        (updateEvents 0 n₁ ++ .cleanup 0 :: List.replicate 9 (.admission 1 0)) = some s ∧
      s.cleaned 0 = true ∧ s.phase 1 = .checked 1 (.ok ()) ∧
      ∃ es₁ now es₂ s₁, updateEvents 0 n₁ ++ .cleanup 0 :: List.replicate 9 (.admission 1 0)
          = es₁ ++ .admission 1 now :: es₂ ∧
        System.FinalCheck regtestMempool raceWorkload (.start n (Mempool.withMaxSize 1000000)) es₁ 1
          1 s₁ := by
  simp only [← and_assoc]
  refine Exists.imp (fun n => Exists.imp fun n₁ => Exists.imp fun n₂ => Exists.imp fun s h => ⟨h, ?_⟩) ?_
  · obtain ⟨es₁, now, es₂, s₁, hsplit, hcheck, -⟩ :=
      (System.admission_never_races .refl h.1.1.2).1 1 1 h.2
    exact ⟨es₁, now, es₂, s₁, hsplit, hcheck⟩
  · simp only [raceNodes_iff, and_assoc, exists_and_left]
    decide +kernel

/-- An update that spends the transfer runs between the loads of the final check: the last load lets
the call pass with a verdict that no longer holds. And after a cleaned block is rolled back, its
transfer is admitted again. -/
theorem update_inside_final_check :
    (∃ n n₁ n₂ s s', RaceNodes n n₁ n₂ ∧
      System.exec regtestMempool raceWorkload (.start n (Mempool.withMaxSize 1000000))
        (List.replicate 7 (.admission 0 0) ++ [.update (.enter 0), .update (.write 0 n₁),
          .admission 0 0, .update (.raise 0), .update (.leave 0)]) = some s ∧
      s.phase 0 = .checking 3 0 (.ok ()) (.loaded 0) ∧
      s.step regtestMempool raceWorkload (.admission 0 0) = some s' ∧
      s'.phase 0 = .checked 0 (.ok ()) ∧
      s'.chain.value.validateTransaction regtestMempool.toValidator (raceWorkload.tx 0)
        ≠ .ok ()) ∧
    ∃ n n₁ n₂ s, RaceNodes n n₁ n₂ ∧
      System.exec regtestMempool raceWorkload (.start n (Mempool.withMaxSize 1000000))
        (updateEvents 0 n₁ ++ .cleanup 0 :: updateEvents 1 n₂
          ++ List.replicate 10 (.admission 0 0)) = some s ∧
      s.cleaned 0 = true ∧
      s.mempool.transactions.map (·.2.tx) = [payTx 9001 [3, 4] 501 502] ∧
      3 ∈ transferBlock.keyImages := by
  simp only [raceNodes_iff, and_assoc, exists_and_left]
  decide +kernel

end CoinCync
