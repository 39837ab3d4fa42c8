import CoinCync.Lib.Run
import CoinCync.Snapshot

/-!
# Installing a chain snapshot

`import`, `rollback_failed_install` and `recover_interrupted_install`, operation by operation, on a
disk with the directory of the chain, its backup and the install marker. An operation succeeds, fails
or is cut by a crash; what a copy or removal leaves when it is cut may be anything, and a check for
existence may wrongly answer no.

The marker says that a backup may have to be moved back. It is written before the move and removed
after the way back, and in both windows names a backup that is not there; a recovery then takes the
chain for a half-installed snapshot and removes it. `Mindful` steps stay out of these windows.
-/

namespace CoinCync.Snapshot

open Option

variable {D : Type}

/-- The install marker. -/
inductive Marker
  | absent
  /-- Cut while it was written. -/
  | torn
  /-- With or without a backup to restore. -/
  | names (backup : Bool)
deriving DecidableEq

/-- The operation that the running process does next. -/
inductive Phase
  | idle
  /-- `import`: write the marker, move the directory aside, copy, verify, remove the marker. -/
  | writeMarker (backup : Bool)
  | moveAside
  | copy (backup : Bool)
  | verify (backup : Bool)
  | commit
  /-- Only the return is left. -/
  | committed
  /-- `rollback_failed_install`: remove the directory, move the backup back, remove the marker. -/
  | rollback (backup : Bool)
  | rollbackMove
  | rollbackDone
  /-- `recover_interrupted_install`: the same. -/
  | recover (backup : Bool)
  | recoverMove
  | recoverDone
deriving DecidableEq

/-- The disk and the process. -/
structure World (D : Type) where
  chaindata : Option D
  backup : Option D
  marker : Marker
  phase : Phase
  /-- The import has returned `Ok`. -/
  returnedOk : Bool
  /-- The last start-up has completed its recovery. -/
  booted : Bool

/-- What happens next. -/
inductive Event (D : Type)
  /-- An import starts; whether its check for the directory wrongly answers no. -/
  | start (miss : Bool)
  /-- A start-up; whether the marker cannot be read, and the check for the backup answers no. -/
  | boot (unread miss : Bool)
  /-- The next operation succeeds. -/
  | ok
  /-- It is skipped, since the check for the directory wrongly answers no. -/
  | miss
  /-- It fails, and leaves this in the directory or half a marker. -/
  | fail (left : Option D) (torn : Bool)
  /-- It is cut by a crash. -/
  | crash (left : Option D) (torn : Bool)

/-- The database an import copies unless the checks refuse it, and what passes the checks after the
copy, if any. -/
structure Job (D : Type) where
  content : Option D
  verifies : Bool
  verifyPasses : D → Bool
  overlay : D → D → D

/-- The import of a snapshot under a policy. -/
def Job.of (E : SnapshotEnv D) (policy : ImportPolicy) (snapshot : SnapshotDir D) : Job D where
  content := (importChecks E policy snapshot).toOption.map Prod.snd
  verifies := policy.checkpoints ≠ []
  verifyPasses installed := (importChecks E policy snapshot).toOption.any fun checked =>
    (verifyInstalledDb E installed checked.1 policy.checkpoints).isOk
  overlay := E.overlay

/-- What an import may leave in the directory. -/
def Job.Passes (J : Job D) (db : D) : Prop :=
  J.content = some db ∧ (J.verifies = true → J.verifyPasses db = true)

namespace World

/-- The disk before the import. -/
def initial (chaindata backup : Option D) : World D :=
  ⟨chaindata, backup, .absent, .idle, false, false⟩

/-- What the copy leaves; it adds to a directory that is there. -/
def copied (J : Job D) (w : World D) : Option D :=
  J.content.map fun content =>
    match w.chaindata with
    | none => content
    | some d => J.overlay d content

/-- The next operation succeeds, or `none`. A directory is not moved onto another. -/
def succeed (J : Job D) (w : World D) : Option (World D) :=
  match w.phase with
  | .idle => none
  | .writeMarker backup =>
    some { w with marker := .names backup, phase := if backup then .moveAside else .copy false }
  | .moveAside =>
    if w.backup.isNone then
      some { w with chaindata := none, backup := w.chaindata, phase := .copy true }
    else none
  | .copy backup =>
    some { w with chaindata := w.copied J, phase := if J.verifies then .verify backup else .commit }
  | .verify _ => if w.chaindata.any J.verifyPasses then some { w with phase := .commit } else none
  | .commit => some { w with marker := .absent, phase := .committed }
  | .committed => some { w with phase := .idle, returnedOk := true }
  | .rollback backup =>
    some { w with chaindata := none, phase := if backup then .rollbackMove else .rollbackDone }
  | .rollbackMove =>
    if w.chaindata.isNone then
      some { w with chaindata := w.backup, backup := none, phase := .rollbackDone }
    else none
  | .rollbackDone => some { w with marker := .absent, phase := .idle }
  | .recover backup =>
    some { w with chaindata := none, phase := if backup then .recoverMove else .recoverDone }
  | .recoverMove =>
    if w.chaindata.isNone then
      some { w with chaindata := w.backup, backup := none, phase := .recoverDone }
    else none
  | .recoverDone => some { w with marker := .absent, phase := .idle, booted := true }

/-- The check for the directory wrongly answers no. -/
def skip (w : World D) : Option (World D) :=
  match w.phase with
  | .rollback backup => some { w with phase := if backup then .rollbackMove else .rollbackDone }
  | .recover backup => some { w with phase := if backup then .recoverMove else .recoverDone }
  | _ => none

/-- The disk after a failed operation; moves and file removals have no half way. -/
def cut (w : World D) (left : Option D) (torn : Bool) : World D :=
  match w.phase with
  | .writeMarker _ => { w with marker := if torn then .torn else w.marker }
  | .copy _ => { w with chaindata := left }
  | .rollback _ | .recover _ => { w with chaindata := w.chaindata.bind fun _ => left }
  | _ => w

/-- After a failure; a marker that cannot be removed is ignored. -/
def afterFailure (w : World D) : Option (World D) :=
  match w.phase with
  | .idle | .committed => none
  | .copy backup | .verify backup => some { w with phase := .rollback backup }
  | .commit => some { w with phase := .committed }
  | .recoverDone => some { w with phase := .idle, booted := true }
  | _ => some { w with phase := .idle }

/-- `import` up to its first write. -/
def startImport (J : Job D) (w : World D) (miss : Bool) : World D :=
  { w with
    booted := false
    phase := if J.content.isSome then .writeMarker (w.chaindata.isSome && !miss) else .idle }

/-- `recover_interrupted_install` to its first write. An unreadable marker counts as absent, a torn
one stops. -/
def startRecovery (w : World D) (unread miss : Bool) : World D :=
  if unread then { w with booted := true }
  else match w.marker with
    | .absent => { w with booted := true }
    | .torn => { w with booted := false }
    | .names backup =>
      { w with booted := false, phase := .recover (backup && (w.backup.isSome && !miss)) }

/-- An import that has returned `Ok` is not started again. -/
def step (J : Job D) (w : World D) : Event D → Option (World D)
  | .start miss =>
    if w.phase = .idle ∧ w.returnedOk = false then some (w.startImport J miss) else none
  | .boot unread miss => if w.phase = .idle then some (w.startRecovery unread miss) else none
  | .ok => w.succeed J
  | .miss => w.skip
  | .fail left torn => (w.cut left torn).afterFailure
  | .crash left torn =>
    if w.phase = .idle then none else some { w.cut left torn with phase := .idle }

/-! ## Steps that keep out of the windows -/

/-- Marker to move aside, and way back to removal of the marker. -/
def InWindow (w : World D) : Prop :=
  w.phase = .moveAside ∨
    (w.phase = .rollbackDone ∨ w.phase = .recoverDone) ∧ w.marker = .names true

/-- The condition on a step: no failure and no crash in the windows, no crash between commit and
return, no import while an earlier marker is there, and what is there is found where it matters. -/
def Mindful (w : World D) : Event D → Prop
  | .start miss => (w.chaindata.isSome = true → miss = false) ∧ ∀ backup, w.marker ≠ .names backup
  | .boot unread miss =>
    (unread = true → ∀ backup, w.marker ≠ .names backup) ∧ (w.marker = .names true → miss = false)
  | .ok => True
  | .miss => w.phase ≠ .rollback false ∧ w.phase ≠ .recover false
  | .fail _ _ => ¬w.InWindow
  | .crash _ _ => ¬w.InWindow ∧ w.phase ≠ .committed

instance (w : World D) : Decidable w.InWindow := inferInstanceAs (Decidable (_ ∨ _))

instance (w : World D) : ∀ e, Decidable (w.Mindful e)
  | .start _ => inferInstanceAs (Decidable (_ ∧ _))
  | .boot _ _ => inferInstanceAs (Decidable (_ ∧ _))
  | .ok => inferInstanceAs (Decidable True)
  | .miss => inferInstanceAs (Decidable (_ ∧ _))
  | .fail _ _ => inferInstanceAs (Decidable (¬_))
  | .crash _ _ => inferInstanceAs (Decidable (_ ∧ _))

/-! ## The disk before each operation -/

/-- Nothing has been touched. -/
def Original (orig : Option D) (w : World D) : Prop :=
  w.chaindata = orig ∧ ∀ backup, w.marker ≠ .names backup

/-- The chain is in the backup. -/
def Aside (orig : Option D) (w : World D) : Prop := ∀ d, orig = some d → w.backup = some d

/-- A recovery will bring the chain back. -/
def Pending (orig : Option D) (w : World D) : Prop :=
  w.marker = .names orig.isSome ∧ w.Aside orig

/-- The snapshot is in place. -/
def Installed (J : Job D) (orig : Option D) (w : World D) : Prop :=
  w.marker = .absent ∧ w.Aside orig ∧ ∃ db, J.Passes db ∧ w.chaindata = some db

/-- The chain is back in place and the marker still there. -/
def Restored (orig : Option D) (w : World D) : Prop :=
  w.chaindata = orig ∧ w.marker = .names orig.isSome

/-- The disk before each operation. -/
def Stage (J : Job D) (orig : Option D) (w : World D) : Phase → Prop
  | .idle => w.Original orig ∨ w.Pending orig ∨ w.Installed J orig ∧ w.returnedOk = true
  | .writeMarker backup => w.Original orig ∧ backup = orig.isSome ∧ J.content.isSome = true
  | .moveAside => w.Restored orig ∧ orig.isSome = true ∧ J.content.isSome = true
  | .copy backup =>
    w.Pending orig ∧ backup = orig.isSome ∧ w.chaindata = none ∧ J.content.isSome = true
  | .verify backup => w.Pending orig ∧ backup = orig.isSome ∧ w.chaindata = J.content
  | .commit => w.Pending orig ∧ ∃ db, J.Passes db ∧ w.chaindata = some db
  | .committed => w.Pending orig ∨ w.Installed J orig
  | .rollback backup | .recover backup => w.Pending orig ∧ backup = orig.isSome
  | .rollbackMove | .recoverMove => w.Pending orig ∧ orig.isSome = true
  | .rollbackDone | .recoverDone => w.Restored orig

/-- What holds before each operation. -/
structure Intact (J : Job D) (orig : Option D) (w : World D) : Prop where
  stage : w.Stage J orig w.phase
  /-- What a completed start-up has found. -/
  boot : w.booted = true → w.phase = .idle ∧
    (w.chaindata = orig ∨ w.returnedOk = true ∧ ∃ db, J.Passes db ∧ w.chaindata = some db)

section Invariant

variable {J : Job D} {orig : Option D} {w : World D}

lemma intact_initial (J : Job D) (orig backup : Option D) : (initial orig backup).Intact J orig :=
  ⟨.inl ⟨rfl, fun _ => nofun⟩, nofun⟩

lemma Original.of_marker (h : w.Original orig) (torn : Bool) :
    Original orig { w with marker := if torn then .torn else w.marker } := by
  refine ⟨h.1, fun backup => ?_⟩
  cases torn with
  | false => exact h.2 backup
  | true => nofun

/-- Outside the windows the chain is where a recovery brings it back. -/
lemma stage_cut (h : w.Stage J orig w.phase) (hwindow : ¬w.InWindow) (hcommitted : w.phase ≠ .committed)
    (left : Option D) (torn : Bool) : (w.cut left torn).Stage J orig .idle := by
  unfold cut
  cases hphase : w.phase with
  | idle =>
    rw [hphase] at h
    exact h
  | writeMarker backup =>
    rw [hphase] at h
    exact .inl (h.1.of_marker torn)
  | committed => exact absurd hphase hcommitted
  | moveAside => exact absurd (.inl hphase) hwindow
  | rollbackDone | recoverDone =>
    rw [hphase] at h
    have hmarker : w.marker ≠ .names true := fun hmarker => hwindow (.inr ⟨by simp [hphase], hmarker⟩)
    refine .inr (.inl ⟨h.2, fun d hd => absurd h.2 ?_⟩)
    simpa [hd] using hmarker
  | _ =>
    rw [hphase] at h
    exact .inr (.inl h.1)

/-- An operation that succeeds. -/
lemma stage_succeed (h : w.Stage J orig w.phase) (hstep : w.succeed J = some w') :
    w'.Stage J orig w'.phase := by
  unfold succeed at hstep
  cases hphase : w.phase with
  | idle => simp [hphase] at hstep
  | writeMarker backup =>
    simp only [hphase, some.injEq] at hstep h
    obtain ⟨⟨hchain, -⟩, rfl, hcontent⟩ := h
    subst hstep
    cases orig with
    | none => exact ⟨⟨rfl, nofun⟩, rfl, hchain, hcontent⟩
    | some d => exact ⟨⟨hchain, rfl⟩, rfl, hcontent⟩
  | moveAside =>
    simp only [hphase, ite_none_right_eq_some, some.injEq] at hstep h
    obtain ⟨⟨hchain, hmarker⟩, hsome, hcontent⟩ := h
    obtain ⟨-, rfl⟩ := hstep
    exact ⟨⟨hmarker, fun d hd => hchain.trans hd⟩, hsome.symm, rfl, hcontent⟩
  | copy backup =>
    simp only [hphase, some.injEq] at hstep h
    obtain ⟨hpending, hbackup, hchain, hcontent⟩ := h
    have hcopied : w.copied J = J.content := by simp [copied, hchain]
    obtain ⟨db, hdb⟩ := isSome_iff_exists.mp hcontent
    subst hstep
    cases hverifies : J.verifies with
    | true => exact ⟨hpending, hbackup, hcopied⟩
    | false => exact ⟨hpending, db, ⟨hdb, by simp [hverifies]⟩, hcopied.trans hdb⟩
  | verify backup =>
    simp only [hphase, ite_none_right_eq_some, some.injEq] at hstep h
    obtain ⟨hpending, -, hchain⟩ := h
    obtain ⟨hpasses, rfl⟩ := hstep
    obtain hnone | ⟨db, hdb⟩ := w.chaindata.eq_none_or_eq_some
    · simp [hnone] at hpasses
    · have hverified : J.verifyPasses db = true := by simpa [hdb] using hpasses
      exact ⟨hpending, db, ⟨hchain.symm.trans hdb, fun _ => hverified⟩, hdb⟩
  | commit =>
    simp only [hphase, some.injEq] at hstep h
    subst hstep
    exact .inr ⟨rfl, h.1.2, h.2⟩
  | committed =>
    simp only [hphase, some.injEq] at hstep h
    subst hstep
    exact .inr (h.imp_right fun hinstalled => ⟨hinstalled, rfl⟩)
  | rollback backup | recover backup =>
    simp only [hphase, some.injEq] at hstep h
    obtain ⟨hpending, rfl⟩ := h
    subst hstep
    cases orig with
    | none => exact ⟨rfl, hpending.1⟩
    | some d => exact ⟨hpending, rfl⟩
  | rollbackMove | recoverMove =>
    simp only [hphase, ite_none_right_eq_some, some.injEq] at hstep h
    obtain ⟨hpending, hsome⟩ := h
    obtain ⟨-, rfl⟩ := hstep
    obtain ⟨d, rfl⟩ := isSome_iff_exists.mp hsome
    exact ⟨hpending.2 d rfl, hpending.1⟩
  | rollbackDone | recoverDone =>
    simp only [hphase, some.injEq] at hstep h
    subst hstep
    exact .inl ⟨h.1, fun _ => nofun⟩

/-- A recovery's last operation completes a start-up. -/
lemma booted_succeed (hstep : w.succeed J = some w') (hbooted : w'.booted = true) :
    w.booted = true ∨ w.phase = .recoverDone ∧ w'.phase = .idle ∧ w'.chaindata = w.chaindata := by
  unfold succeed at hstep
  cases hphase : w.phase with
  | idle => simp [hphase] at hstep
  | recoverDone =>
    simp only [hphase, some.injEq] at hstep
    subst hstep
    exact .inr ⟨rfl, rfl, rfl⟩
  | moveAside | verify _ | rollbackMove | recoverMove =>
    simp only [hphase, ite_none_right_eq_some, some.injEq] at hstep
    obtain ⟨-, rfl⟩ := hstep
    exact .inl hbooted
  | _ =>
    simp only [hphase, some.injEq] at hstep
    subst hstep
    exact .inl hbooted

lemma Intact.not_booted (h : w.Intact J orig) (hphase : w.phase ≠ .idle) : w.booted ≠ true :=
  fun hbooted => hphase (h.boot hbooted).1

lemma Intact.succeed (h : w.Intact J orig) (hstep : w.succeed J = some w') : w'.Intact J orig := by
  refine ⟨stage_succeed h.stage hstep, fun hbooted => ?_⟩
  have hphase : w.phase ≠ .idle := by
    intro hphase
    simp [World.succeed, hphase] at hstep
  obtain hbefore | ⟨hdone, hidle, hchain⟩ := booted_succeed hstep hbooted
  · exact absurd hbefore (h.not_booted hphase)
  · have hrestored : w.Stage J orig .recoverDone := hdone ▸ h.stage
    exact ⟨hidle, .inl (hchain.trans hrestored.1)⟩

lemma Intact.skip (h : w.Intact J orig) (hmindful : w.Mindful .miss) (hstep : w.skip = some w') :
    w'.Intact J orig := by
  have hstage := h.stage
  obtain ⟨hrollback, hrecover⟩ := hmindful
  unfold World.skip at hstep
  cases hphase : w.phase with
  | rollback backup | recover backup =>
    simp only [hphase, some.injEq] at hstep hstage
    subst hstep
    -- with no backup to move back the step would go on to remove the marker
    have hbackup : backup = true := by
      cases backup with
      | true => rfl
      | false => contradiction
    subst hbackup
    exact ⟨⟨hstage.1, hstage.2.symm⟩, fun hbooted => absurd hbooted (h.not_booted (by simp [hphase]))⟩
  | _ => simp [hphase] at hstep

@[simp] lemma cut_phase (left : Option D) (torn : Bool) : (w.cut left torn).phase = w.phase := by
  unfold cut
  split <;> rfl

@[simp] lemma cut_booted (left : Option D) (torn : Bool) : (w.cut left torn).booted = w.booted := by
  unfold cut
  split <;> rfl

variable (h : w.Intact J orig)
include h

/-- A crash outside the windows. -/
lemma Intact.crash (hphase : w.phase ≠ .idle) (hwindow : ¬w.InWindow)
    (hcommitted : w.phase ≠ .committed) (left : Option D) (torn : Bool) :
    Intact J orig { w.cut left torn with phase := .idle } := by
  refine ⟨stage_cut h.stage hwindow hcommitted left torn, fun hbooted => ?_⟩
  exact absurd ((cut_booted left torn).symm.trans hbooted) (h.not_booted hphase)

lemma Intact.fail (hwindow : ¬w.InWindow) (hstep : (w.cut left torn).afterFailure = some w') :
    w'.Intact J orig := by
  have hstage := h.stage
  rw [afterFailure, cut_phase] at hstep
  cases hphase : w.phase with
  | idle | committed => simp [hphase] at hstep
  | copy backup | verify backup =>
    simp only [hphase, some.injEq, cut] at hstep hstage
    subst hstep
    exact ⟨⟨hstage.1, hstage.2.1⟩, fun hbooted => absurd hbooted (h.not_booted (by simp [hphase]))⟩
  | commit =>
    simp only [hphase, some.injEq, cut] at hstep hstage
    subst hstep
    exact ⟨.inl hstage.1, fun hbooted => absurd hbooted (h.not_booted (by simp [hphase]))⟩
  | recoverDone =>
    have hidle := stage_cut hstage hwindow (by simp [hphase]) left torn
    simp only [hphase, some.injEq, cut] at hstep hstage hidle
    subst hstep
    exact ⟨hidle, fun _ => ⟨rfl, .inl hstage.1⟩⟩
  | _ =>
    simp only [hphase, some.injEq] at hstep
    subst hstep
    exact h.crash (by simp [hphase]) hwindow (by simp [hphase]) left torn

lemma Intact.startImport (hphase : w.phase = .idle) (hok : w.returnedOk = false)
    (hmindful : w.Mindful (.start miss)) : (w.startImport J miss).Intact J orig := by
  have hstage : w.Stage J orig .idle := hphase ▸ h.stage
  obtain ⟨hmiss, hmarker⟩ := hmindful
  have horiginal : w.Original orig := by
    obtain horiginal | hpending | ⟨-, hreturned⟩ := hstage
    · exact horiginal
    · exact absurd hpending.1 (hmarker _)
    · simp [hok] at hreturned
  refine ⟨?_, nofun⟩
  unfold World.startImport
  cases hcontent : J.content.isSome with
  | false => exact .inl horiginal
  | true =>
    refine ⟨horiginal, ?_, hcontent⟩
    rw [← horiginal.1]
    cases hsome : w.chaindata.isSome with
    | false => rfl
    | true => simp [hmiss hsome]

lemma Intact.startRecovery (hphase : w.phase = .idle) (hmindful : w.Mindful (.boot unread miss)) :
    (w.startRecovery unread miss).Intact J orig := by
  have hstage : w.Stage J orig .idle := hphase ▸ h.stage
  obtain ⟨hunread, hmiss⟩ := hmindful
  -- a start-up that finds nothing to do
  have hnothing : (∀ backup, w.marker ≠ .names backup) → Intact J orig { w with booted := true } := by
    intro hmarker
    refine ⟨h.stage, fun _ => ⟨hphase, ?_⟩⟩
    obtain horiginal | hpending | ⟨hinstalled, hreturned⟩ := hstage
    · exact .inl horiginal.1
    · exact absurd hpending.1 (hmarker _)
    · exact .inr ⟨hreturned, hinstalled.2.2⟩
  unfold World.startRecovery
  split_ifs with hread
  · exact hnothing (hunread hread)
  split
  case h_1 hmarker => exact hnothing (by simp [hmarker])
  case h_2 => exact ⟨h.stage, nofun⟩
  case h_3 backup hmarker =>
    have hpending : w.Pending orig := by
      obtain horiginal | hpending | ⟨hinstalled, -⟩ := hstage
      · exact absurd hmarker (horiginal.2 backup)
      · exact hpending
      · exact absurd (hinstalled.1.symm.trans hmarker) nofun
    have hbackup : backup = orig.isSome := Marker.names.inj (hmarker.symm.trans hpending.1)
    refine ⟨⟨hpending, ?_⟩, nofun⟩
    cases orig with
    | none => simp [hbackup]
    | some d =>
      have hfound : miss = false := hmiss (by rw [hmarker, hbackup]; rfl)
      simp [hbackup, hfound, hpending.2 d rfl]

lemma Intact.step (hmindful : w.Mindful e) (hstep : w.step J e = some w') : w'.Intact J orig := by
  cases e with
  | start miss =>
    obtain ⟨⟨hphase, hok⟩, hstep⟩ := ite_none_right_eq_some.mp hstep
    cases hstep
    exact h.startImport hphase hok hmindful
  | boot unread miss =>
    obtain ⟨hphase, hstep⟩ := ite_none_right_eq_some.mp hstep
    cases hstep
    exact h.startRecovery hphase hmindful
  | ok => exact h.succeed hstep
  | miss => exact h.skip hmindful hstep
  | fail left torn => exact h.fail hmindful hstep
  | crash left torn =>
    obtain ⟨hphase, hstep⟩ := ite_none_left_eq_some.mp hstep
    cases hstep
    exact h.crash hphase hmindful.1 hmindful.2 left torn

/-- The operator's chain is in its directory or the backup. -/
lemma Intact.kept (hd : orig = some d) : w.chaindata = some d ∨ w.backup = some d := by
  have hstage := h.stage
  subst hd
  generalize w.phase = phase at hstage
  cases phase with
  | idle =>
    obtain horiginal | hpending | ⟨hinstalled, -⟩ := hstage
    · exact .inl horiginal.1
    · exact .inr (hpending.2 d rfl)
    · exact .inr (hinstalled.2.1 d rfl)
  | writeMarker _ | moveAside =>
    exact .inl hstage.1.1
  | rollbackDone | recoverDone =>
    exact .inl hstage.1
  | committed =>
    obtain hpending | hinstalled := hstage
    · exact .inr (hpending.2 d rfl)
    · exact .inr (hinstalled.2.1 d rfl)
  | _ =>
    exact .inr (hstage.1.2 d rfl)

end Invariant

/-- What an import may leave has passed every check. -/
lemma accepted_of_passes (h : (Job.of E policy snapshot).Passes db) :
    Accepted E policy snapshot db := by
  obtain ⟨hcontent, hverified⟩ := h
  cases hchecks : importChecks E policy snapshot with
  | error e => simp [Job.of, hchecks, Except.toOption] at hcontent
  | ok checked =>
    obtain ⟨manifest, db'⟩ := checked
    obtain rfl : db' = db := by simpa [Job.of, hchecks, Except.toOption] using hcontent
    refine accepted_of_checks hchecks fun hne => ?_
    have hisOk := hverified (by simpa [Job.of] using hne)
    cases hverify : verifyInstalledDb E db' manifest policy.checkpoints with
    | ok => rfl
    | error e => simp [Job.of, hchecks, Except.toOption, hverify, Except.toBool] at hisOk

/-- From a disk with any chain or none, in every state that mindful steps reach, the chain is in its
directory or in the backup, and a node that has started has found the chain as it was, or the
snapshot that passed the checks if the import returned `Ok`. -/
theorem chain_never_lost (E : SnapshotEnv D) (policy : ImportPolicy) (snapshot : SnapshotDir D)
    (orig backup : Option D) (w : World D)
    (h : Run.Reaches (step (Job.of E policy snapshot)) Mindful (initial orig backup) w) :
    (∀ d, orig = some d → w.chaindata = some d ∨ w.backup = some d) ∧
      (w.booted = true → w.chaindata = orig ∨
        w.returnedOk = true ∧ ∃ db, Accepted E policy snapshot db ∧ w.chaindata = some db) := by
  have hintact : w.Intact (Job.of E policy snapshot) orig :=
    h.invariant (intact_initial _ orig backup) fun _ _ _ ht hok hstep => ht.step hok hstep
  refine ⟨fun d hd => hintact.kept hd, fun hbooted => ?_⟩
  obtain ⟨-, horig | ⟨hreturned, db, hpasses, hchain⟩⟩ := hintact.boot hbooted
  · exact .inl horig
  · exact .inr ⟨hreturned, db, accepted_of_passes hpasses, hchain⟩

/-- A directory is a number; the one of the snapshot is 2. -/
def sampleEnv : SnapshotEnv ℕ where
  parseManifest _ := some ⟨"regtest", "00", 1, "00", "digest"⟩
  parseSignature _ := some ⟨"key", "signature"⟩
  decodeFixed n _ := some (List.replicate n 0)
  verifyingKey _ := true
  verifySignature _ _ _ := true
  toHex _ := "00"
  blake3OfDir db := .ok (if db = 2 then "digest" else "other")
  opens _ := true
  tip _ := some (1, 0)
  blockHash _ _ := some 0
  overlay old new := old + new

/-- A regtest node with one signer. -/
def samplePolicy : ImportPolicy := ⟨.regtest, 0, [(1, 0)], ["key"]⟩

/-- The snapshot it trusts. -/
def sampleSnapshot : SnapshotDir ℕ := ⟨some "manifest", some "signature", some 2⟩

/-- The copy is cut, the chain restored, and a second import goes through. -/
def interrupted : List (Event ℕ) :=
  [.start false, .ok, .ok, .crash (some 9) false, .boot false false, .ok, .ok, .ok]
    ++ [.start false, .ok, .ok, .ok, .ok, .ok, .ok, .boot false false]

/-- What is left after it. -/
theorem chain_never_lost_interrupted :
    ∃ w, Run.exec (step (Job.of sampleEnv samplePolicy sampleSnapshot)) (initial (some 1) none)
        interrupted = some w ∧
      w.booted = true ∧ w.chaindata = some 2 ∧
      (w.chaindata = some 1 ∨ w.backup = some 1) ∧
      (w.chaindata = some 1 ∨
        w.returnedOk = true ∧ ∃ db, Accepted sampleEnv samplePolicy sampleSnapshot db ∧
          w.chaindata = some db) := by
  have hexec : ∃ w ∈ Run.exec (Run.guarded (step (Job.of sampleEnv samplePolicy sampleSnapshot))
      Mindful) (initial (some 1) none) interrupted, w.booted = true ∧ w.chaindata = some 2 := by
    decide +kernel
  obtain ⟨w, hrun, hbooted, hchain⟩ := hexec
  have hlost := chain_never_lost sampleEnv samplePolicy sampleSnapshot (some 1) none w
    (Run.reaches_of_exec_guarded hrun)
  exact ⟨w, Run.exec_of_guarded hrun, hbooted, hchain, hlost.1 1 rfl, hlost.2 hbooted⟩

/-- A crash between the marker and the move aside: the next start-up removes the chain and there is
no backup. -/
theorem chain_lost_by_crash :
    ∃ w, Run.exec (step (Job.of sampleEnv samplePolicy sampleSnapshot)) (initial (some 1) none)
        [.start false, .ok, .crash none false, .boot false false, .ok, .ok] = some w ∧
      w.booted = true ∧ w.chaindata = none ∧ w.backup = none := by
  decide +kernel

end World

end CoinCync.Snapshot
