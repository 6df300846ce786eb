import Ape.Proofs.FrameRuns

/-!
# `Ape.Proofs.Jobs`: process groups and sessions

`jobView` is what job control reads of the process table: the pid, the session and the group of
every process. `JobView.Ok` says that a group lies in one session and that a session leader leads
its group, together with the bounds that make the pid of a new process a fresh group.

Every change of the view gives one process a session and a group. `JobView.Ok.insert` is the only
step lemma: the invariant survives when the pair fits the other processes. A `fork` gives the child
the pair of its parent, which always fits. `setsid` and `setpgid` choose a pair that may not fit,
and then the result is exactly as bad as the pair.
-/

set_option autoImplicit false

namespace Ape

open Ape.Lib Cmd

/-- What job control reads of a process. -/
structure JobIds where
  pid : Nat
  sessionId : Nat
  processGroupId : Nat
  deriving DecidableEq

/-- The number, the session and the group of a process. -/
def TaskStruct.jobIds (t : TaskStruct) : JobIds := ⟨t.pid, t.sessionId, t.processGroupId⟩

/-- The next pid, and the ids of the processes. -/
structure JobView where
  nextPid : Nat
  jobs : OrdMap Nat JobIds

/-- The next number and what the processes belong to. -/
def World.jobView (w : World) : JobView := ⟨w.nextPid, w.tasks.mapValues TaskStruct.jobIds⟩

namespace JobView

/-- The session `s` and the group `g` fit a process: the other processes of the group are in the
session, and a session leader leads its group. -/
def Fits (v : JobView) (pid s g : Nat) : Prop :=
  (∀ q k, v.jobs.get? q = some k → q ≠ pid → k.processGroupId = g → k.sessionId = s) ∧
    (s = pid → g = pid)

/-- Every process group lies in one session, and every session leader leads its group. -/
structure Grouped (v : JobView) : Prop where
  session : ∀ p q j k, v.jobs.get? p = some j → v.jobs.get? q = some k →
    j.processGroupId = k.processGroupId → j.sessionId = k.sessionId
  leader : ∀ p j, v.jobs.get? p = some j → j.sessionId = p → j.processGroupId = p

/-- The invariant of runs. No process is in a group that is still to come, and a session is at
least as old as each process in it. -/
structure Ok (v : JobView) : Prop extends Grouped v where
  pids : ∀ p j, v.jobs.get? p = some j → j.pid = p ∧ p < v.nextPid
  below : ∀ p j, v.jobs.get? p = some j → j.processGroupId < v.nextPid ∧ j.sessionId ≤ p

/-- The view after a process got its ids. -/
def insert (v : JobView) (n pid : Nat) (j : JobIds) : JobView := ⟨n, v.jobs.insert pid j⟩

/-- The ids of a process keep the groups in their sessions only if they fit. -/
theorem Grouped.fits_of_insert {v : JobView} {n pid : Nat} {j : JobIds}
    (h : (v.insert n pid j).Grouped) : v.Fits pid j.sessionId j.processGroupId := by
  have hself : (v.insert n pid j).jobs.get? pid = some j := OrdMap.get?_insert_self _ _ _
  refine ⟨?_, h.leader pid j hself⟩
  intro q k hq hne hg
  have hq' : (v.insert n pid j).jobs.get? q = some k := by
    rw [JobView.insert, OrdMap.get?_insert_ne _ _ hne]
    exact hq
  exact h.session q pid k j hq' hself hg

/-- The step lemma: a process gets ids that fit. -/
theorem Ok.insert {v : JobView} (h : v.Ok) {n pid : Nat} {j : JobIds} (hn : v.nextPid ≤ n)
    (hpid : pid < n) (hj : j.pid = pid) (hgroup : j.processGroupId < n)
    (hsession : j.sessionId ≤ pid)
    (hfits : v.Fits pid j.sessionId j.processGroupId) : (v.insert n pid j).Ok := by
  -- an entry of the new table is the new one or an old one of another process
  have hcases : ∀ q k, (v.insert n pid j).jobs.get? q = some k →
      (q = pid ∧ k = j) ∨ (q ≠ pid ∧ v.jobs.get? q = some k) := by
    intro q k hq
    rw [JobView.insert, OrdMap.get?_insert] at hq
    split at hq
    · rename_i heq
      cases hq
      exact .inl ⟨heq, rfl⟩
    · rename_i hne
      exact .inr ⟨hne, hq⟩
  refine ⟨⟨?_, ?_⟩, ?_, ?_⟩
  -- two members of one group: the new one with itself, with an old one, and two old ones
  · intro p q k l hp hq hg
    rcases hcases p k hp with ⟨rfl, rfl⟩ | ⟨hpne, hp'⟩ <;>
      rcases hcases q l hq with ⟨rfl, rfl⟩ | ⟨hqne, hq'⟩
    · rfl
    · exact (hfits.1 q l hq' hqne hg.symm).symm
    · exact hfits.1 p k hp' hpne hg
    · exact h.session p q k l hp' hq' hg
  · intro p k hp hs
    rcases hcases p k hp with ⟨rfl, rfl⟩ | ⟨-, hp'⟩
    · exact hfits.2 hs
    · exact h.leader p k hp' hs
  · intro p k hp
    rcases hcases p k hp with ⟨rfl, rfl⟩ | ⟨-, hp'⟩
    · exact ⟨hj, hpid⟩
    · exact ⟨(h.pids p k hp').1, lt_of_lt_of_le (h.pids p k hp').2 hn⟩
  · intro p k hp
    rcases hcases p k hp with ⟨rfl, rfl⟩ | ⟨-, hp'⟩
    · exact ⟨hgroup, hsession⟩
    · exact ⟨lt_of_lt_of_le (h.below p k hp').1 hn, (h.below p k hp').2⟩

/-- The end of a process. -/
theorem Ok.erase {v : JobView} (h : v.Ok) (pid : Nat) :
    JobView.Ok ⟨v.nextPid, v.jobs.erase pid⟩ := by
  have hold : ∀ q k, (v.jobs.erase pid).get? q = some k → v.jobs.get? q = some k := by
    intro q k hq
    rw [OrdMap.get?_erase] at hq
    split at hq
    · cases hq
    · exact hq
  refine ⟨⟨fun p q k l hp hq => h.session p q k l (hold p k hp) (hold q l hq),
    fun p k hp => h.leader p k (hold p k hp)⟩, ?_, ?_⟩
  · intro p k hp
    exact h.pids p k (hold p k hp)
  · intro p k hp
    exact h.below p k (hold p k hp)

end JobView

/-- The ids of the processes are in order. -/
def World.JobsOk (w : World) : Prop := w.jobView.Ok

/-! ### What the view does not see -/

/-- A change of a record that keeps session and group keeps the view of jobs. -/
theorem World.jobView_modifyTask (w : World) (pid : Nat) {f : TaskStruct → TaskStruct}
    (hf : ∀ t, (f t).jobIds = t.jobIds) : (w.modifyTask pid f).jobView = w.jobView := by
  show JobView.mk w.nextPid ((w.tasks.modify pid f).mapValues TaskStruct.jobIds) = w.jobView
  rw [OrdMap.mapValues_modify_eq _ _ _ hf]
  rfl

instance : BlindSlots World.jobView where
  tick _ _ := rfl
  slots _ _ := rfl
  ledger _ _ := rfl

instance : BlindTrace World.jobView := ⟨fun _ _ => rfl⟩

instance : BlindSignals World.jobView :=
  ⟨fun w pid _ => w.jobView_modifyTask pid fun _ => rfl, fun _ _ => rfl, fun _ _ => rfl⟩

instance : BlindHosts World.jobView := ⟨fun _ _ => rfl, fun _ _ => rfl⟩

instance : BlindRest World.jobView where
  state w pid _ := w.jobView_modifyTask pid fun _ => rfl
  tty w pid _ := w.jobView_modifyTask pid fun _ => rfl

instance : BlindStops World.jobView :=
  ⟨fun w pid _ _ => w.jobView_modifyTask pid fun _ => rfl, fun _ _ => rfl, fun _ _ => rfl⟩

instance : BlindActions World.jobView := ⟨fun w pid _ => w.jobView_modifyTask pid fun _ => rfl⟩

instance : BlindWaits World.jobView :=
  ⟨fun _ _ => rfl, fun _ _ => rfl, fun _ _ => rfl, fun _ _ => rfl, fun _ _ => rfl, fun _ _ => rfl⟩

instance : BlindSleeps World.jobView :=
  ⟨fun _ _ => rfl, fun _ _ => rfl, fun _ _ => rfl, fun _ _ => rfl⟩

instance : BlindCaller World.jobView := ⟨fun _ _ => rfl⟩

instance : BlindFiles World.jobView where
  files w pid _ := w.jobView_modifyTask pid fun _ => rfl
  cloexecLog _ _ := rfl
  positionSplit _ _ := rfl
  endpoints _ _ := rfl
  doubleClose _ _ := rfl
  asyncFree _ _ := rfl
  asyncRegions _ _ := rfl
  asyncVaddr _ _ := rfl
  iouring _ _ := rfl
  fdOverflow _ _ := rfl
  earlyRecycle _ _ := rfl

instance : BlindMemory World.jobView where
  vspace w pid _ := w.jobView_modifyTask pid fun _ => rfl
  tables w pid _ := w.jobView_modifyTask pid fun _ => rfl
  scratch _ _ _ := rfl
  writeFrame _ _ _ := rfl
  frames _ _ _ := rfl
  refs _ _ := rfl
  doubleFree _ _ := rfl
  mm w pid _ := w.jobView_modifyTask pid fun _ => rfl
  fileMapLog _ _ := rfl

instance : BlindSlots World.JobsOk := BlindSlots.comp (V := World.jobView) _ inferInstance

instance : BlindTrace World.JobsOk := BlindTrace.comp (V := World.jobView) _ inferInstance

instance : BlindSignals World.JobsOk := BlindSignals.comp (V := World.jobView) _ inferInstance

instance : BlindHosts World.JobsOk := BlindHosts.comp (V := World.jobView) _ inferInstance

instance : BlindRest World.JobsOk := BlindRest.comp (V := World.jobView) _ inferInstance

instance : BlindStops World.JobsOk := BlindStops.comp (V := World.jobView) _ inferInstance

instance : BlindActions World.JobsOk := BlindActions.comp (V := World.jobView) _ inferInstance

instance : BlindWaits World.JobsOk := BlindWaits.comp (V := World.jobView) _ inferInstance

instance : BlindSleeps World.JobsOk := BlindSleeps.comp (V := World.jobView) _ inferInstance

instance : BlindCaller World.JobsOk := BlindCaller.comp (V := World.jobView) _ inferInstance

instance : BlindFiles World.JobsOk := BlindFiles.comp (V := World.jobView) _ inferInstance

instance : BlindMemory World.JobsOk := BlindMemory.comp (V := World.jobView) _ inferInstance

/-! ### The process table -/

/-- The view after the record of a process was replaced. -/
theorem World.jobView_insert (w : World) (n pid : Nat) (t : TaskStruct) :
    ({ w with nextPid := n, tasks := w.tasks.insert pid t } : World).jobView =
      w.jobView.insert n pid t.jobIds := by
  unfold World.jobView JobView.insert
  rw [OrdMap.mapValues_insert]

/-- The ids of a process in the view. -/
theorem World.jobView_get {w : World} {pid : Nat} {t : TaskStruct} (h : w.task? pid = some t) :
    w.jobView.jobs.get? pid = some t.jobIds := by
  show (w.tasks.mapValues _).get? pid = _
  rw [OrdMap.get?_mapValues]
  exact congrArg (Option.map _) h

/-- The view after a process got new ids. -/
theorem World.jobView_modify {w : World} {pid : Nat} {t : TaskStruct} (h : w.task? pid = some t)
    (f : TaskStruct → TaskStruct) :
    (w.modifyTask pid f).jobView = w.jobView.insert w.nextPid pid (f t).jobIds := by
  rw [← w.jobView_insert, World.modifyTask, OrdMap.modify_eq_insert _ _ h]

instance : ProcessKeeps World.JobsOk where
  erase w pid h _ := by
    have hview : ({ w with tasks := w.tasks.erase pid } : World).jobView =
        ⟨w.nextPid, w.jobView.jobs.erase pid⟩ := by
      unfold World.jobView
      rw [OrdMap.mapValues_erase]
    rw [World.JobsOk, hview]
    exact h.erase pid
  register w parentPid cnode h := by
    -- no process is in the group of the next pid
    rw [World.JobsOk, World.registered, w.jobView_insert]
    refine JobView.Ok.insert h (Nat.le_succ _) (Nat.lt_succ_self _) rfl (Nat.lt_succ_self _)
      (le_refl _) ⟨?_, fun _ => rfl⟩
    intro q k hq _ hg
    have hlt : k.processGroupId < w.nextPid := (h.below q k hq).1
    exact absurd hg (Nat.ne_of_lt hlt)
  inherit w child parent pid h hfork := by
    obtain ⟨hparent, hnext, l, cnode, hchild⟩ := hfork
    obtain ⟨tp, htp, hp⟩ := World.task?_of_record hparent
    obtain ⟨tc, htc, hc⟩ := World.task?_of_record hchild
    have hids : (tc.inherit parent).jobIds = { tp.jobIds with pid := child } := by
      have hpid : tc.pid = child := by
        show tc.withoutMm.pid = _
        rw [hc]
        rfl
      have hsession : tp.sessionId = parent.sessionId := by
        show tp.withoutMm.sessionId = _
        rw [hp]
        rfl
      have hgroup : tp.processGroupId = parent.processGroupId := by
        show tp.withoutMm.processGroupId = _
        rw [hp]
        rfl
      unfold TaskStruct.inherit TaskStruct.jobIds
      dsimp only
      split <;> (rw [hsession, hgroup, ← hpid]; rfl)
    change (w.modifyTask child (·.inherit parent)).JobsOk
    rw [World.JobsOk, World.jobView_modify htc, hids]
    have hget := World.jobView_get htp
    have hpids := h.pids pid _ hget
    have hbelow := h.below pid _ hget
    have hnext' : w.jobView.nextPid = child + 1 := hnext
    refine JobView.Ok.insert h (le_refl _) (by show child < w.nextPid; omega) rfl hbelow.1 (by
      show tp.sessionId ≤ child
      have := hbelow.2
      have hs : tp.jobIds.sessionId = tp.sessionId := rfl
      omega) ⟨fun q k hq _ hg => h.session q pid k tp.jobIds hq hget hg, fun hs => ?_⟩
    -- only a process that leads the session itself has its own pid as session
    have hself : pid = child := by
      have hs' : tp.jobIds.sessionId = child := hs
      omega
    subst hself
    exact h.leader pid tp.jobIds hget hs
  panicked _ _ h := h

/-! ### `setsid` and `setpgid` -/

/-- A session and a group fit a process, over the process table. -/
def World.Fits (w : World) (pid s g : Nat) : Prop :=
  (∀ e ∈ w.tasks.entries, e.1 ≠ pid → e.2.processGroupId = g → e.2.sessionId = s) ∧
    (s = pid → g = pid)

instance (w : World) (pid s g : Nat) : Decidable (w.Fits pid s g) :=
  inferInstanceAs (Decidable (_ ∧ _))

/-- Whether a group fits in a session, in the state and in its view. -/
theorem World.fits_iff (w : World) (pid s g : Nat) : w.Fits pid s g ↔ w.jobView.Fits pid s g := by
  refine and_congr_left' ⟨?_, ?_⟩
  · intro h q k hq hne hg
    have hq' : (w.tasks.mapValues TaskStruct.jobIds).get? q = some k := hq
    rw [OrdMap.get?_mapValues] at hq'
    obtain ⟨t, ht, rfl⟩ := Option.map_eq_some_iff.mp hq'
    exact h (q, t) (OrdMap.mem_entries.mpr ht) hne hg
  · intro h e he hne hg
    exact h e.1 e.2.jobIds (World.jobView_get (OrdMap.mem_entries.mp he)) hne hg

/-- The process that an accepted `setpgid` moves, and its new group. -/
def World.setpgidMove (w : World) (pid target pgid : Nat) : Option (Nat × TaskStruct × Nat) :=
  let targetPid := if target = 0 then pid else target
  match w.task? pid, w.task? targetPid with
  | some caller, some task =>
    let newPgid := if pgid = 0 then task.pid else pgid
    if targetPid ≠ pid ∧ (task.parentPid ≠ pid ∨ task.sessionId ≠ caller.sessionId) then none
    else if newPgid ≠ targetPid ∧
        ¬ (w.task? newPgid).any fun leader => leader.sessionId = task.sessionId then none
    else if targetPid = pid ∧ newPgid = caller.processGroupId then none
    else some (targetPid, task, newPgid)
  | _, _ => none

/-- The job calls that keep the groups in their sessions: the new session of a `setsid` and the
new group of a `setpgid` fit the process that gets them. -/
def World.JobFits (w : World) (pid : Nat) : Syscall → Prop
  | .setsid => ∀ t ∈ w.task? pid, t.processGroupId ≠ pid → w.Fits pid pid pid
  | .setpgid target pgid =>
    ∀ m ∈ w.setpgidMove pid target pgid, w.Fits m.1 m.2.1.sessionId m.2.2
  | _ => True

instance (w : World) (pid : Nat) (sys : Syscall) : Decidable (w.JobFits pid sys) := by
  unfold World.JobFits
  split <;> infer_instance

/-- `setsid` of a process that does not lead its group. -/
theorem run_doSetsid (pid : Nat) (w : World) :
    ((doSetsid pid).run w).2 = match w.task? pid with
      | some t => if t.processGroupId = pid then w else w.modifyTask pid fun t =>
          { t with sessionId := pid, processGroupId := pid, controllingTty := 0 }
      | none => w := by
  cases ht : w.task? pid with
  | none => simp [doSetsid, getProcess, run_bind, ht, Cmd.getSome]
  | some t =>
    rw [doSetsid, run_bind_ok (run_getProcess ht)]
    dsimp only
    split <;> rfl

/-- `setpgid` moves one process or none. -/
theorem run_doSetpgid (pid target pgid : Nat) (w : World) :
    ((doSetpgid pid target pgid).run w).2 = match w.setpgidMove pid target pgid with
      | some (p, _, g) => w.modifyTask p fun t => { t with processGroupId := g }
      | none => w := by
  unfold doSetpgid World.setpgidMove
  dsimp only
  generalize (if target = 0 then pid else target) = p
  -- the checks come in the order of the code, and each failure leaves the state
  cases hc : w.task? pid with
  | none => simp [getProcess, run_bind, hc, Cmd.getSome]
  | some caller =>
    rw [run_bind_ok (run_getProcess hc)]
    cases ht : w.task? p with
    | none => simp [getProcess, run_bind, ht, Cmd.getSome]
    | some task =>
      rw [run_bind_ok (run_getProcess ht)]
      dsimp only
      generalize (if pgid = 0 then task.pid else pgid) = g
      split
      · rfl
      · -- the move itself, once the group is accepted
        have hmove : ((if p = pid ∧ g = caller.processGroupId then pure 0 else do
              modifyTask p fun t => { t with processGroupId := g }
              pure 0 : M Int).run w).2 =
            match (if p = pid ∧ g = caller.processGroupId then none else some (p, task, g)) with
            | some (p, _, g) => w.modifyTask p fun t => { t with processGroupId := g }
            | none => w := by
          split <;> rfl
        by_cases hg : g = p
        · have hgroup : ¬ (g ≠ p ∧ ¬ (w.task? g).any fun leader =>
              leader.sessionId = task.sessionId) := fun h => h.1 hg
          -- the group exists and is in another session, so the move is refused
          rw [if_neg hgroup, when_neg (not_not.mpr hg)]
          exact hmove
        · rw [when_pos hg]
          cases hl : w.task? g with
          | none => simp [getProcess, run_bind, hl, hg, Cmd.getSome]
          | some leader =>
            have hlead : (getProcess g >>= fun leader =>
                when (leader.sessionId ≠ task.sessionId) (throw .permissionDenied) : M Unit).run w =
                (when (leader.sessionId ≠ task.sessionId)
                  (throw .permissionDenied) : M Unit).run w :=
              run_bind_ok (run_getProcess hl)
            by_cases hs : leader.sessionId = task.sessionId
            · rw [when_neg (not_not.mpr hs)] at hlead
              have hgroup : ¬ (g ≠ p ∧ ¬ (some leader).any fun leader =>
                  leader.sessionId = task.sessionId) := by simp [hs]
              rw [run_bind_ok (hlead.trans rfl), if_neg hgroup]
              exact hmove
            · rw [when_pos hs] at hlead
              have hgroup : g ≠ p ∧ ¬ (some leader).any fun leader =>
                  leader.sessionId = task.sessionId := by simp [hg, hs]
              rw [run_bind_error (hlead.trans rfl), if_pos hgroup]

/-- A process whose session and group change: the ids are in order exactly when the new ones fit. -/
theorem World.JobsOk.change {w : World} (h : w.JobsOk) {pid : Nat} {t : TaskStruct}
    (ht : w.task? pid = some t) {f : TaskStruct → TaskStruct} {s g : Nat}
    (hf : (f t).jobIds = ⟨t.pid, s, g⟩) (hs : s ≤ pid) (hg : g < w.nextPid) :
    ((w.modifyTask pid f).jobView.Grouped ↔ w.Fits pid s g) ∧
      (w.Fits pid s g → (w.modifyTask pid f).JobsOk) := by
  obtain ⟨hpid, hlt⟩ := h.pids pid _ (World.jobView_get ht)
  have hok : w.Fits pid s g → (w.modifyTask pid f).JobsOk := by
    intro hfits
    rw [World.JobsOk, World.jobView_modify ht, hf]
    exact JobView.Ok.insert h (le_refl _) hlt hpid hg hs ((w.fits_iff pid s g).mp hfits)
  refine ⟨⟨?_, fun hfits => (hok hfits).toGrouped⟩, hok⟩
  intro hgr
  rw [World.jobView_modify ht, hf] at hgr
  exact (w.fits_iff pid s g).mpr hgr.fits_of_insert

/-- `setsid` leaves the ids in order exactly when the new session fits. -/
theorem doSetsid_jobs {w : World} (h : w.JobsOk) (pid : Nat) :
    (((doSetsid pid).run w).2.jobView.Grouped ↔ w.JobFits pid .setsid) ∧
      (w.JobFits pid .setsid → ((doSetsid pid).run w).2.JobsOk) := by
  rw [run_doSetsid]
  unfold World.JobFits
  cases ht : w.task? pid with
  | none => exact ⟨iff_of_true h.toGrouped (by simp), fun _ => h⟩
  | some t =>
    dsimp only
    split
    · rename_i hg
      exact ⟨iff_of_true h.toGrouped (by simp [hg]), fun _ => h⟩
    · rename_i hg
      have hlt := (h.pids pid _ (World.jobView_get ht)).2
      obtain ⟨hiff, hok⟩ := h.change (f := fun t =>
        { t with sessionId := pid, processGroupId := pid, controllingTty := 0 })
        ht rfl (le_refl _) hlt
      simp only [Option.mem_some_iff, forall_eq', ne_eq, hg, not_false_eq_true, forall_const]
      exact ⟨hiff, hok⟩

/-- An accepted `setpgid` names a process, and a group that is that process or an older one. -/
theorem World.setpgidMove_some {w : World} {pid target pgid p g : Nat} {t : TaskStruct}
    (h : w.setpgidMove pid target pgid = some (p, t, g)) :
    w.task? p = some t ∧ (g = p ∨ (w.task? g).isSome) := by
  unfold World.setpgidMove at h
  dsimp only at h
  generalize (if target = 0 then pid else target) = q at h
  split at h
  · rename_i caller task _ ht
    generalize (if pgid = 0 then task.pid else pgid) = k at h
    obtain ⟨-, h⟩ := Option.ite_none_left_eq_some.mp h
    obtain ⟨hgroup, h⟩ := Option.ite_none_left_eq_some.mp h
    obtain ⟨-, h⟩ := Option.ite_none_left_eq_some.mp h
    cases h
    refine ⟨ht, ?_⟩
    by_contra hno
    obtain ⟨hne, hnone⟩ := not_or.mp hno
    refine hgroup ⟨hne, ?_⟩
    rw [Option.not_isSome_iff_eq_none.mp hnone]
    simp
  · cases h

/-- `setpgid` leaves the ids in order exactly when the new group fits. -/
theorem doSetpgid_jobs {w : World} (h : w.JobsOk) (pid target pgid : Nat) :
    (((doSetpgid pid target pgid).run w).2.jobView.Grouped ↔
        w.JobFits pid (.setpgid target pgid)) ∧
      (w.JobFits pid (.setpgid target pgid) → ((doSetpgid pid target pgid).run w).2.JobsOk) := by
  rw [run_doSetpgid]
  -- a call that moves nobody leaves the table, and one that moves fits or does not
  cases hm : w.setpgidMove pid target pgid with
  | none =>
    have hfits : w.JobFits pid (.setpgid target pgid) := by
      intro m hmem
      rw [hm] at hmem
      cases hmem
    exact ⟨iff_of_true h.toGrouped hfits, fun _ => h⟩
  | some m =>
    obtain ⟨p, t, g⟩ := m
    obtain ⟨ht, hg⟩ := World.setpgidMove_some hm
    have hfits : w.JobFits pid (.setpgid target pgid) ↔ w.Fits p t.sessionId g := by
      show (∀ m ∈ w.setpgidMove pid target pgid, w.Fits m.1 m.2.1.sessionId m.2.2) ↔ _
      rw [hm]
      simp only [Option.mem_some_iff, forall_eq']
    have hlt : ∀ q, (w.task? q).isSome → q < w.nextPid := by
      intro q hq
      obtain ⟨tq, htq⟩ := Option.isSome_iff_exists.mp hq
      exact (h.pids q _ (World.jobView_get htq)).2
    -- the group is the process itself or a process that is there
    have hg' : g < w.nextPid := by
      rcases hg with rfl | hg
      · exact hlt g (by simp [ht])
      · exact hlt g hg
    rw [hfits]
    exact h.change (f := fun t => { t with processGroupId := g }) ht rfl
      (h.below p _ (World.jobView_get ht)).2 hg'

/-! ### Runs -/

/-- Every two live processes of a group are in the same session, and a process whose session has
its own pid is in the group with its own pid. -/
def World.GroupsInSession (w : World) : Prop :=
  (∀ p q tp tq, w.task? p = some tp → w.task? q = some tq →
    tp.processGroupId = tq.processGroupId → tp.sessionId = tq.sessionId) ∧
  ∀ p t, w.task? p = some t → t.sessionId = p → t.processGroupId = p

/-- Whether groups stay in sessions, in the state and in its view. -/
theorem World.groupsInSession_iff (w : World) : w.GroupsInSession ↔ w.jobView.Grouped := by
  have hget : ∀ p j, w.jobView.jobs.get? p = some j → ∃ t, w.task? p = some t ∧ t.jobIds = j := by
    intro p j hp
    have hp' : (w.tasks.mapValues TaskStruct.jobIds).get? p = some j := hp
    rw [OrdMap.get?_mapValues] at hp'
    exact Option.map_eq_some_iff.mp hp'
  constructor
  · rintro ⟨hsession, hleader⟩
    constructor
    · intro p q j k hp hq hg
      obtain ⟨tp, htp, rfl⟩ := hget p j hp
      obtain ⟨tq, htq, rfl⟩ := hget q k hq
      exact hsession p q tp tq htp htq hg
    · intro p j hp hs
      obtain ⟨t, ht, rfl⟩ := hget p j hp
      exact hleader p t ht hs
  · intro h
    constructor
    · intro p q tp tq hp hq hg
      exact h.session p q _ _ (World.jobView_get hp) (World.jobView_get hq) hg
    · intro p t hp hs
      exact h.leader p _ (World.jobView_get hp) hs

/-- A call keeps the ids in order when its session or group fits. -/
theorem routeSyscall_jobsOk {w : World} (h : w.JobsOk) (pid : Nat) (sys : Syscall)
    (hfits : w.JobFits pid sys) : ((routeSyscall pid sys).run w).2.JobsOk := by
  refine routeSyscall_keeps_at terminateProcess_keeps_blind pid sys h
    (fun hmem => memoryCall_keeps_blind pid hmem _ h) (fun hjob => ?_)
    (fun _ _ _ hsys => hsys ▸ doWait4_keeps _ _ _ _ _ h) fun req rem hsys => ?_
  · cases sys with
    | setsid =>
      show ((doSetsid pid >>= fun n => pure (asIsize n) : M Int).run w).2.JobsOk
      rw [run_map_state]
      exact (doSetsid_jobs h pid).2 hfits
    | setpgid target pgid => exact (doSetpgid_jobs h pid target pgid).2 hfits
    | _ => cases hjob
  · subst hsys
    exact doNanosleep_keeps pid req rem _ h

/-- The requests that keep the groups in their sessions. -/
def World.JobStep (w : World) : Request → Prop
  | .syscall pid sys => w.JobFits pid sys
  | _ => True

/-- Every request keeps the ids in order when its session or group fits. -/
theorem dispatch_jobsOk {w : World} (h : w.JobsOk) {r : Request} (hfits : w.JobStep r) :
    ((dispatch r).run w).2.JobsOk := by
  refine dispatch_keeps_of terminateProcess_keeps_blind
    (fun pid sys ret => finishSyscall_keeps (terminateProcess_keeps_blind pid) sys ret)
    doNanosleep_keeps r h fun pid sys hr _ => ?_
  subst hr
  exact routeSyscall_jobsOk (w := { w with activeCallerPid := some pid }) h pid sys hfits

/-- In runs of fitting steps the jobs are in order. -/
theorem ReachableBy.jobsOk {w : World} (h : ReachableBy World.JobStep w) : w.JobsOk := by
  induction h with
  | @boot w w' path hi hr =>
    have hnone : ∀ p j, ¬ w.jobView.jobs.get? p = some j := by
      intro p j hp
      have hp' : (w.tasks.mapValues TaskStruct.jobIds).get? p = some j := hp
      rw [hi.noTasks] at hp'
      cases hp'
    have hstart : w.JobsOk := ⟨⟨fun p q j k hp => absurd hp (hnone p j),
      fun p j hp => absurd hp (hnone p j)⟩, fun p j hp => absurd hp (hnone p j),
      fun p j hp => absurd hp (hnone p j)⟩
    have hload := loadInit_keeps_blind (I := World.JobsOk) path w hstart
    rwa [hr] at hload
  | step _ hfits hs ih =>
    rw [← hs.2]
    exact dispatch_jobsOk ih hfits

/-- In a run whose sessions and groups all fit, process groups stay inside one session. A call of
such a run keeps them there exactly when its own session or group fits. -/
theorem groups_stay_in_session (w : World) (h : ReachableBy World.JobStep w) :
    w.GroupsInSession ∧ ∀ pid sys,
      ((routeSyscall pid sys).run w).2.GroupsInSession ↔ w.JobFits pid sys := by
  have hok := h.jobsOk
  refine ⟨w.groupsInSession_iff.mpr hok.toGrouped, ?_⟩
  intro pid sys
  rw [World.groupsInSession_iff]
  have hother : (∀ fits : w.JobFits pid sys, ((routeSyscall pid sys).run w).2.jobView.Grouped) :=
    fun hfits => (routeSyscall_jobsOk hok pid sys hfits).toGrouped
  refine ⟨fun hgr => ?_, hother⟩
  cases sys with
  | setsid =>
    have hgr' : ((doSetsid pid).run w).2.jobView.Grouped := by
      rw [← run_map_state (doSetsid pid) asIsize w]
      exact hgr
    exact (doSetsid_jobs hok pid).1.mp hgr'
  | setpgid target pgid => exact (doSetpgid_jobs hok pid target pgid).1.mp hgr
  | _ => trivial

/-- The child of `init` in a session of its own. -/
def sampleSession : World := sampleFork.after (.syscall 2 .setsid)

/-- The sample with a session of its own is such a run. -/
theorem sampleSession_run : ReachableBy World.JobStep sampleSession := by
  have hfork : ReachableBy World.JobStep sampleFork :=
    (ReachableBy.boot sampleStart_initial sampleBoot_run).after trivial (by decide +kernel)
  refine hfork.after ?_ (by decide +kernel)
  show sampleFork.JobFits 2 .setsid
  decide +kernel

/-- The child of the sample is in its own session and group. -/
theorem groups_stay_in_session_sample :
    ReachableBy World.JobStep sampleSession ∧
      (sampleSession.task? 2).map TaskStruct.jobIds = some ⟨2, 2, 2⟩ ∧
      sampleSession.GroupsInSession :=
  ⟨sampleSession_run, by decide +kernel, (groups_stay_in_session _ sampleSession_run).1⟩

/-- The child of `init` makes a group of its own and forks, goes back to the group of `init`, and
makes a session: its pid. -/
def sampleSplitGroup : World :=
  [Request.syscall 2 (.setpgid 0 0), .syscall 2 (.clone 17 0 0), .syscall 2 (.setpgid 0 1),
    .syscall 2 .setsid].foldl World.after sampleFork

/-- The sample with a group in two sessions is reachable. -/
theorem sampleSplitGroup_reachable : Reachable sampleSplitGroup :=
  (((sampleFork_reachable.after (by decide +kernel)).after (by decide +kernel)).after
    (by decide +kernel)).after (by decide +kernel)

/-- Process 3 stays in group 2 and in the session of `init`, and process 2 is in group 2 and in its
own session. -/
theorem group_spans_two_sessions :
    Reachable sampleSplitGroup ∧ ¬ sampleSplitGroup.GroupsInSession := by
  refine ⟨sampleSplitGroup_reachable, ?_⟩
  intro h
  have h2 : (sampleSplitGroup.task? 2).map TaskStruct.jobIds = some ⟨2, 2, 2⟩ := by decide +kernel
  have h3 : (sampleSplitGroup.task? 3).map TaskStruct.jobIds = some ⟨3, 1, 2⟩ := by decide +kernel
  obtain ⟨t2, ht2, hids2⟩ := Option.map_eq_some_iff.mp h2
  obtain ⟨t3, ht3, hids3⟩ := Option.map_eq_some_iff.mp h3
  have hsession := h.1 2 3 t2 t3 ht2 ht3 (by
    rw [show t2.processGroupId = 2 from congrArg JobIds.processGroupId hids2,
      show t3.processGroupId = 2 from congrArg JobIds.processGroupId hids3])
  rw [show t2.sessionId = 2 from congrArg JobIds.sessionId hids2,
    show t3.sessionId = 1 from congrArg JobIds.sessionId hids3] at hsession
  cases hsession

end Ape
