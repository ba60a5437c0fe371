import DlsSdk.LcmNet.LoopSpec

/-!
# `LcmNet.Transition` — the transition table of the state machine

`Trans` lists what one step of `lcm_net_state_loop` can do: for every line the guard on the device, the
next role and state, the push it makes and the commands it runs. `stateLoop_step` says that a step of
the code is a line of the table; every protocol invariant is a case analysis on it. The push of a line is
always the push that is due (`Trans.push_eq`), so what the device publishes is a function of its state.
-/

namespace DlsSdk

/-- The registers name the device in the role: the test on which `lcm_net_idle_loop` enters
    `STATE_CALL`. -/
def LcmNet.Named (self : LcmNet) : LcmRole → Prop
  | .reqer => self.reqAddr = self.slave ∧ self.reqState = LcmState.call
  | .reper => self.repAddr = self.slave ∧ self.repState = LcmState.call
  | _ => False

/-- The next step of the state machine enters `STATE_CALL` in the role. -/
def LcmNet.Enters (self : LcmNet) (role : LcmRole) : Prop :=
  self.waitData = true ∧ self.lcmRole = role ∧ self.lcmState = .idle ∧ self.Named role

instance (self : LcmNet) : (role : LcmRole) → Decidable (self.Named role)
  | .reqer => inferInstanceAs (Decidable (_ ∧ _))
  | .reper => inferInstanceAs (Decidable (_ ∧ _))
  | .null => inferInstanceAs (Decidable False)
  | .idle => inferInstanceAs (Decidable False)

instance (self : LcmNet) (role : LcmRole) : Decidable (self.Enters role) :=
  inferInstanceAs (Decidable (_ ∧ _))

/-- The registers say that the call is over for the role: the test on which `lcm_net_work_loop` leaves
    the role. -/
def LcmNet.Over (self : LcmNet) : LcmRole → Prop
  | .reqer => self.reqState = LcmState.idle
  | .reper => self.repState = LcmState.idle
  | _ => False

/-- One step of the state machine of a device `self`: next role, next state, push, commands. -/
inductive Trans (self : LcmNet) :
    LcmRole → LcmState → Option PushKind → List Event → Prop where
  /-- Nothing to do, or only a counter moves. -/
  | stay (hd : self.due = none) : Trans self self.lcmRole self.lcmState none []
  /-- A request, an answer or the requester's move to `STATE_WORK` is pushed; role and state wait for
      it to be applied. -/
  | push {k : PushKind} (hd : self.due = some k)
      (hk : k = .request ∨ k = .answer ∨ k = .reqWork) :
      Trans self self.lcmRole self.lcmState (some k) []
  | join (hw : self.waitData = true) (hr : self.lcmRole = .null) (hs : self.lcmState = .idle) :
      Trans self .idle .idle none []
  | enter {role : LcmRole} (hw : self.waitData = true) (hr : self.lcmRole = role)
      (hs : self.lcmState = .idle) (hn : self.Named role) (hd : self.due = none) :
      Trans self role .call none []
  | launchReqer (hw : self.waitData = true) (hr : self.lcmRole = .reqer)
      (hs : self.lcmState = .call) (hq : self.reqState = LcmState.work) :
      Trans self .reqer .work none
        [.sampleNng self.repAddr self.repAddr self.reqAddr self.reqAddr]
  | launchReper (hw : self.waitData = true) (hr : self.lcmRole = .reper)
      (hs : self.lcmState = .call) (hq : self.reqState = LcmState.work) :
      Trans self .reper .work (some .repWork)
        [.sampleNng self.reqAddr self.reqAddr self.repAddr self.repAddr]
  /-- The wait is given up; a requester that sees the answer in the same step still pushes its move to
      `STATE_WORK`. -/
  | timeout (hw : self.waitData = true) (hr : self.lcmRole = .reqer ∨ self.lcmRole = .reper)
      (hs : self.lcmState = .call) (hq : self.reqState ≠ LcmState.work) :
      Trans self .idle .work self.due []
  | hangUp (hw : self.waitData = true) (hr : self.lcmRole = .idle) (hs : self.lcmState = .work)
      (ha : ¬ (self.repAddr = "" ∧ self.reqAddr = "")) :
      Trans self .idle .work (some .clear) [.killall]
  | hungUp (hw : self.waitData = true) (hr : self.lcmRole = .idle) (hs : self.lcmState = .work)
      (ha : self.repAddr = "" ∧ self.reqAddr = "") :
      Trans self .idle .idle (some .clear) [.killall]
  /-- A participant sees the end of its call and starts to hang up itself. -/
  | ended {role : LcmRole} (hw : self.waitData = true) (hr : self.lcmRole = role)
      (hs : self.lcmState = .work) (he : self.Over role) : Trans self .idle .work none []

/-- The push of a transition is the push that is due. -/
theorem Trans.push_eq {self : LcmNet} {role : LcmRole} {state : LcmState} {k : Option PushKind}
    {sh : List Event} (h : Trans self role state k sh) : k = self.due := by
  cases h with
  | stay hd => exact hd.symm
  | push hd _ => exact hd.symm
  | join hw hr hs =>
      exact (LcmNet.due_of_no_mode hr hs (by rintro ⟨⟩ <;> simp [PushKind.mode])).symm
  | enter _ _ _ _ hd => exact hd.symm
  | launchReqer hw hr hs hq =>
      -- the requester's push in `STATE_CALL` is for a `req_state` that is not at work yet
      exact (LcmNet.due_of_not_guard (k := .reqWork) (by rw [hr, hs]; rfl) fun hg => hg.2.2.1 hq).symm
  | launchReper hw hr hs hq =>
      have hg : PushKind.repWork.Guard self := ⟨hr, hs, hq⟩
      exact (LcmNet.due_eq_some.mpr ⟨hw, hg⟩).symm
  | timeout => rfl
  | hangUp hw hr hs _ =>
      have hg : PushKind.clear.Guard self := ⟨hr, hs⟩
      exact (LcmNet.due_eq_some.mpr ⟨hw, hg⟩).symm
  | hungUp hw hr hs _ =>
      have hg : PushKind.clear.Guard self := ⟨hr, hs⟩
      exact (LcmNet.due_eq_some.mpr ⟨hw, hg⟩).symm
  | @ended role hw hr hs he =>
      -- in `STATE_WORK` only a device that is leaving pushes, and it has no call to see the end of
      have hm : PushKind.clear.mode ≠ (role, .work) := by
        intro hc
        rw [← show LcmRole.idle = role from congrArg Prod.fst hc] at he
        exact he
      refine (LcmNet.due_of_no_mode hr hs ?_).symm
      rintro ⟨⟩
      case clear => exact hm
      all_goals simp [PushKind.mode]

/-- The state machine never takes a role, it only gives one up. -/
theorem Trans.role_eq {self : LcmNet} {role : LcmRole} {state : LcmState} {k : Option PushKind}
    {sh : List Event} (h : Trans self role state k sh) : role = self.lcmRole ∨ role = .idle := by
  cases h with
  | stay => exact .inl rfl
  | push => exact .inl rfl
  | enter _ hr => exact .inl hr.symm
  | launchReqer _ hr => exact .inl hr.symm
  | launchReper _ hr => exact .inl hr.symm
  | join | timeout | hangUp | hungUp | ended => exact .inr rfl

/-- A step of the code from `h` to `h'` is the line of the table with push `k` and commands `sh`. -/
structure LoopStep (h h' : Host) (k : Option PushKind) (sh : List Event) : Prop where
  trans : Trans h.self h'.self.lcmRole h'.self.lcmState k sh
  published : Published h h' (k.map (PushKind.regs h.self.slave h.self.regs))
  shell : shell h'.log = shell h.log ++ sh
  waitData : h'.self.waitData = (k.isNone && h.self.waitData)

/-- A step, from the values after it. -/
theorem LoopStep.of {h h' : Host} {role : LcmRole} {state : LcmState} {k : Option PushKind}
    {sh : List Event} (ht : Trans h.self role state k sh) (hr : h'.self.lcmRole = role)
    (hs : h'.self.lcmState = state)
    (hp : Published h h' (k.map (PushKind.regs h.self.slave h.self.regs)))
    (hsh : DlsSdk.shell h'.log = DlsSdk.shell h.log ++ sh)
    (hw : h'.self.waitData = (k.isNone && h.self.waitData)) : LoopStep h h' k sh where
  trans := by rw [hr, hs]; exact ht
  published := hp
  shell := hsh
  waitData := hw

/-- A step that publishes nothing and runs nothing. -/
theorem LoopStep.silent {h h' : Host} {role : LcmRole} {state : LcmState}
    (ht : Trans h.self role state none []) (hr : h'.self.lcmRole = role)
    (hs : h'.self.lcmState = state) (hl : h'.log = h.log)
    (hw : h'.self.waitData = h.self.waitData) : LoopStep h h' none [] :=
  .of ht hr hs (congrArg DlsSdk.published hl) (by rw [hl, List.append_nil]) hw

/-- A step that publishes the push `k` and runs nothing. -/
theorem LoopStep.pushes {h h' : Host} {role : LcmRole} {state : LcmState} {k : PushKind}
    (ht : Trans h.self role state (some k) []) (hr : h'.self.lcmRole = role)
    (hs : h'.self.lcmState = state)
    (hp : Published h h' (some (k.regs h.self.slave h.self.regs)))
    (hsh : DlsSdk.shell h'.log = DlsSdk.shell h.log) (hw : h'.self.waitData = false) :
    LoopStep h h' (some k) [] :=
  .of ht hr hs hp (by rw [hsh, List.append_nil]) hw

/-- Nothing is due while the last push may still be on its way. -/
theorem due_of_not_waitData {self : LcmNet} (hw : self.waitData = false) : self.due = none := by
  apply LcmNet.due_eq_none.mpr
  intro k hk _
  rw [hw] at hk
  exact Bool.noConfusion hk

/-! ## `lcm_net_idle_loop` -/

/-- Without `wait_data` no loop does anything. -/
theorem idleLoop_wait {h : Host} (hw : ¬ h.self.waitData = true) : lcmNetIdleLoop h = h := by
  unfold lcmNetIdleLoop
  cases h.self.lcmRole <;> dsimp only <;> rw [if_neg hw]

/-- The requester's branch: push a request, or enter once the registers name the device. -/
theorem idleLoop_reqer_step {h : Host} (hw : h.self.waitData = true) (hr : h.self.lcmRole = .reqer)
    (hs : h.self.lcmState = .idle) : ∃ k sh, LoopStep h (lcmNetIdleLoop h) k sh := by
  unfold lcmNetIdleLoop
  rw [hr]
  dsimp only
  rw [if_pos hw]
  by_cases hq : h.self.reqState = LcmState.idle ∧ h.self.repState = LcmState.idle
  · -- the request is pushed; `req_state` is still idle, so the device does not enter
    have hg : PushKind.request.Guard h.self := ⟨hr, hs, hq.1, hq.2⟩
    have hne : ¬ (h.self.reqAddr = h.self.slave ∧ h.self.reqState = LcmState.call) := by
      rw [hq.1]
      simp
    rw [if_pos hq]
    split
    · rename_i hc
      exact absurd hc hne
    · exact ⟨some .request, [], .pushes (.push (LcmNet.due_eq_some.mpr ⟨hw, hg⟩) (.inl rfl))
        rfl rfl (push_published ..) (push_shell ..) rfl⟩
  · have hd : h.self.due = none :=
      LcmNet.due_of_not_guard (k := .request) (by rw [hr, hs]; rfl) fun hg => hq hg.2.2
    rw [if_neg hq]
    by_cases hn : h.self.reqAddr = h.self.slave ∧ h.self.reqState = LcmState.call
    · rw [if_pos hn]
      exact ⟨none, [], .silent (.enter hw hr hs hn hd) hr rfl rfl rfl⟩
    · rw [if_neg hn]
      exact ⟨none, [], .silent (.stay hd) rfl rfl rfl rfl⟩

/-- The replier's branch: push an answer, or enter. -/
theorem idleLoop_reper_step {h : Host} (hw : h.self.waitData = true) (hr : h.self.lcmRole = .reper)
    (hs : h.self.lcmState = .idle) : ∃ k sh, LoopStep h (lcmNetIdleLoop h) k sh := by
  unfold lcmNetIdleLoop
  rw [hr]
  dsimp only
  rw [if_pos hw]
  by_cases hq : h.self.reqState = LcmState.call ∧ h.self.repState = LcmState.idle
  · have hg : PushKind.answer.Guard h.self := ⟨hr, hs, hq.1, hq.2⟩
    rw [if_pos hq]
    exact ⟨some .answer, [], .pushes (.push (LcmNet.due_eq_some.mpr ⟨hw, hg⟩) (.inr (.inl rfl)))
      rfl rfl (push_published ..) (push_shell ..) rfl⟩
  · -- the answer's branch ends in a `break`, so the way in is only open past it
    have hd : h.self.due = none :=
      LcmNet.due_of_not_guard (k := .answer) (by rw [hr, hs]; rfl) fun hg => hq hg.2.2
    rw [if_neg hq]
    by_cases hn : h.self.repAddr = h.self.slave ∧ h.self.repState = LcmState.call
    · rw [if_pos hn]
      exact ⟨none, [], .silent (.enter hw hr hs hn hd) hr rfl rfl rfl⟩
    · rw [if_neg hn]
      exact ⟨none, [], .silent (.stay hd) rfl rfl rfl rfl⟩

theorem idleLoop_step {h : Host} (hs : h.self.lcmState = .idle) :
    ∃ k sh, LoopStep h (lcmNetIdleLoop h) k sh := by
  by_cases hw : h.self.waitData = true
  · cases hr : h.self.lcmRole with
    | reqer => exact idleLoop_reqer_step hw hr hs
    | reper => exact idleLoop_reper_step hw hr hs
    | null =>
        unfold lcmNetIdleLoop
        rw [hr]
        dsimp only
        rw [if_pos hw]
        exact ⟨none, [], .silent (.join hw hr hs) rfl hs rfl rfl⟩
    | idle =>
        have hd : h.self.due = none :=
          LcmNet.due_of_no_mode hr hs (by rintro ⟨⟩ <;> simp [PushKind.mode])
        unfold lcmNetIdleLoop
        rw [hr]
        dsimp only
        rw [if_pos hw]
        -- only the times of the ringing hint move
        refine ⟨none, [], .silent (.stay hd) ?_ ?_ ?_ ?_⟩
        all_goals repeat' split
        all_goals rfl
  · have hd := due_of_not_waitData (Bool.not_eq_true _ ▸ hw)
    rw [idleLoop_wait hw]
    exact ⟨none, [], .silent (.stay hd) rfl rfl rfl rfl⟩

/-! ## `lcm_net_call_loop` -/

theorem callLoop_wait {h : Host} (hw : ¬ h.self.waitData = true) : lcmNetCallLoop h = h := by
  unfold lcmNetCallLoop
  cases h.self.lcmRole <;> dsimp only <;> rw [if_neg hw]

/-- The requester's branch: launch, or wait and answer the answer. -/
theorem callLoop_reqer_step {h : Host} (hw : h.self.waitData = true) (hr : h.self.lcmRole = .reqer)
    (hs : h.self.lcmState = .call) : ∃ k sh, LoopStep h (lcmNetCallLoop h) k sh := by
  unfold lcmNetCallLoop
  rw [hr]
  dsimp only
  rw [if_pos hw]
  by_cases hq : h.self.reqState = LcmState.work
  · rw [if_pos hq]
    exact ⟨none, _, .of (.launchReqer hw hr hs hq) hr rfl (by simp [Published])
      (by simp only [emit_log, shell_append, shell_sampleNng]) rfl⟩
  · rw [if_neg hq]
    -- after the wait the device is in the same mode or on its way out; the rest is the same in both
    have hg := reqerWait_waited h
    generalize reqerWait h = g at hg ⊢
    have hrs : g.self.repState = h.self.repState := congrArg Regs.repState hg.frame.regs
    have hra : g.self.repAddr = h.self.repAddr := congrArg Regs.repAddr hg.frame.regs
    have hsl : g.self.slave = h.self.slave := congrArg Ident.slave hg.frame.ident
    by_cases hp : h.self.repState = LcmState.call
    · have hgu : PushKind.reqWork.Guard h.self := ⟨hr, hs, hq, hp⟩
      have hd : h.self.due = some .reqWork := LcmNet.due_eq_some.mpr ⟨hw, hgu⟩
      rw [if_pos (hrs.trans hp)]
      have hpub : Published h ((lcmNetPush g g.self.slave g.self.repAddr LcmState.work.toUInt8
          g.self.repState.toUInt8 0 []).usleep (250 * 1000))
          (some (PushKind.reqWork.regs h.self.slave h.self.regs)) := by
        have hpush := push_published g g.self.slave g.self.repAddr LcmState.work.toUInt8
          g.self.repState.toUInt8 0 []
        rw [hsl, hra, hrs] at hpush ⊢
        exact Published.of_start (congrArg published hg.log) hg.frame.ident hpush
      have hsh : shell ((lcmNetPush g g.self.slave g.self.repAddr LcmState.work.toUInt8
          g.self.repState.toUInt8 0 []).usleep (250 * 1000)).log = shell h.log := by
        rw [usleep_log, push_shell, hg.log]
      rcases hg.mode with ⟨hgr, hgs⟩ | ⟨hgr, hgs⟩
      · exact ⟨_, _, .pushes (.push hd (.inr (.inr rfl))) hgr hgs hpub hsh rfl⟩
      · have ht := Trans.timeout hw (.inl hr) hs hq
        rw [hd] at ht
        exact ⟨_, _, .pushes ht hgr hgs hpub hsh rfl⟩
    · have hd : h.self.due = none :=
        LcmNet.due_of_not_guard (k := .reqWork) (by rw [hr, hs]; rfl) fun hgu => hp hgu.2.2.2
      rw [if_neg (fun hc => hp (hrs.symm.trans hc))]
      rcases hg.mode with ⟨hgr, hgs⟩ | ⟨hgr, hgs⟩
      · exact ⟨_, _, .silent (.stay hd) hgr hgs hg.log hg.waitData⟩
      · have ht := Trans.timeout hw (.inl hr) hs hq
        rw [hd] at ht
        exact ⟨_, _, .silent ht hgr hgs hg.log hg.waitData⟩

/-- The replier's branch: launch, or wait. -/
theorem callLoop_reper_step {h : Host} (hw : h.self.waitData = true) (hr : h.self.lcmRole = .reper)
    (hs : h.self.lcmState = .call) : ∃ k sh, LoopStep h (lcmNetCallLoop h) k sh := by
  unfold lcmNetCallLoop
  rw [hr]
  dsimp only
  rw [if_pos hw]
  by_cases hq : h.self.reqState = LcmState.work
  · rw [if_pos hq]
    have hpub := push_published h h.self.reqAddr h.self.slave h.self.reqState.toUInt8
      LcmState.work.toUInt8 0 []
    refine ⟨some .repWork, _, .of (.launchReper hw hr hs hq) hr rfl (hpub.log_eq ?_) ?_ rfl⟩
    · simp only [emit_log, published_append, published_sampleNng, List.append_nil]
    · simp only [emit_log, shell_append, shell_sampleNng, push_shell, push_self]
  · rw [if_neg hq]
    have hg := reperWait_waited h
    have hd : h.self.due = none :=
      LcmNet.due_of_not_guard (k := .repWork) (by rw [hr, hs]; rfl) fun hgu => hq hgu.2.2
    rcases hg.mode with ⟨hgr, hgs⟩ | ⟨hgr, hgs⟩
    · exact ⟨_, _, .silent (.stay hd) hgr hgs hg.log hg.waitData⟩
    · have ht := Trans.timeout hw (.inr hr) hs hq
      rw [hd] at ht
      exact ⟨_, _, .silent ht hgr hgs hg.log hg.waitData⟩

theorem callLoop_step {h : Host} (hs : h.self.lcmState = .call) :
    ∃ k sh, LoopStep h (lcmNetCallLoop h) k sh := by
  by_cases hw : h.self.waitData = true
  · cases hr : h.self.lcmRole with
    | reqer => exact callLoop_reqer_step hw hr hs
    | reper => exact callLoop_reper_step hw hr hs
    | null =>
        have hd : h.self.due = none :=
          LcmNet.due_of_no_mode hr hs (by rintro ⟨⟩ <;> simp [PushKind.mode])
        have hsame : lcmNetCallLoop h = h := by unfold lcmNetCallLoop; rw [hr]
        rw [hsame]
        exact ⟨none, [], .silent (.stay hd) rfl rfl rfl rfl⟩
    | idle =>
        have hd : h.self.due = none :=
          LcmNet.due_of_no_mode hr hs (by rintro ⟨⟩ <;> simp [PushKind.mode])
        have hsame : lcmNetCallLoop h = h := by unfold lcmNetCallLoop; rw [hr]
        rw [hsame]
        exact ⟨none, [], .silent (.stay hd) rfl rfl rfl rfl⟩
  · have hd := due_of_not_waitData (Bool.not_eq_true _ ▸ hw)
    rw [callLoop_wait hw]
    exact ⟨none, [], .silent (.stay hd) rfl rfl rfl rfl⟩

/-! ## `lcm_net_work_loop` -/

theorem workLoop_wait {h : Host} (hw : ¬ h.self.waitData = true) : lcmNetWorkLoop h = h := by
  unfold lcmNetWorkLoop
  cases h.self.lcmRole <;> dsimp only <;> rw [if_neg hw]

theorem workLoop_step {h : Host} (hs : h.self.lcmState = .work) :
    ∃ k sh, LoopStep h (lcmNetWorkLoop h) k sh := by
  by_cases hw : h.self.waitData = true
  · unfold lcmNetWorkLoop
    cases hr : h.self.lcmRole with
    | null =>
        have hd : h.self.due = none :=
          LcmNet.due_of_no_mode hr hs (by rintro ⟨⟩ <;> simp [PushKind.mode])
        exact ⟨none, [], .silent (.stay hd) rfl rfl rfl rfl⟩
    | idle =>
        dsimp only
        rw [if_pos hw]
        -- the clear is pushed and the kill is run whether or not the addresses are gone already
        have hpub := push_published h "" "" LcmState.idle.toUInt8 LcmState.idle.toUInt8 0 []
        by_cases ha : h.self.repAddr = "" ∧ h.self.reqAddr = ""
        · split
          · refine ⟨some .clear, _, .of (.hungUp hw hr hs ha) hr rfl (hpub.log_eq ?_) ?_ rfl⟩
            · simp only [emit_log, usleep_log, published_append, published_killall, List.append_nil]
            · simp only [emit_log, usleep_log, shell_append, shell_killall, push_shell]
          · rename_i hc; exact absurd ha hc
        · split
          · rename_i hc; exact absurd hc ha
          · refine ⟨some .clear, _, .of (.hangUp hw hr hs ha) hr hs (hpub.log_eq ?_) ?_ rfl⟩
            · simp only [emit_log, usleep_log, published_append, published_killall, List.append_nil]
            · simp only [emit_log, usleep_log, shell_append, shell_killall, push_shell]
    | reqer =>
        have hd : h.self.due = none :=
          LcmNet.due_of_no_mode hr hs (by rintro ⟨⟩ <;> simp [PushKind.mode])
        dsimp only
        rw [if_pos hw]
        by_cases he : h.self.reqState = LcmState.idle
        · rw [if_pos he]
          exact ⟨none, [], .silent (.ended hw hr hs he) rfl hs rfl rfl⟩
        · rw [if_neg he]
          exact ⟨none, [], .silent (.stay hd) rfl rfl rfl rfl⟩
    | reper =>
        have hd : h.self.due = none :=
          LcmNet.due_of_no_mode hr hs (by rintro ⟨⟩ <;> simp [PushKind.mode])
        dsimp only
        rw [if_pos hw]
        by_cases he : h.self.repState = LcmState.idle
        · rw [if_pos he]
          exact ⟨none, [], .silent (.ended hw hr hs he) rfl hs rfl rfl⟩
        · rw [if_neg he]
          exact ⟨none, [], .silent (.stay hd) rfl rfl rfl rfl⟩
  · have hd := due_of_not_waitData (Bool.not_eq_true _ ▸ hw)
    rw [workLoop_wait hw]
    exact ⟨none, [], .silent (.stay hd) rfl rfl rfl rfl⟩

/-- **The code refines its transition table.** Every step of `lcm_net_state_loop` is a line of `Trans`,
    publishes the push of that line and runs its commands. -/
theorem stateLoop_step {h h' : Host} (hs : lcmNetStateLoop h = some h') :
    ∃ k sh, LoopStep h h' k sh := by
  unfold lcmNetStateLoop at hs
  split at hs
  · rename_i hst; obtain rfl := Option.some.inj hs; exact idleLoop_step hst
  · rename_i hst; obtain rfl := Option.some.inj hs; exact callLoop_step hst
  · rename_i hst; obtain rfl := Option.some.inj hs; exact workLoop_step hst
  · exact absurd hs (by simp)

/-! ## Every operation of a device -/

/-- What an operation of a device does to its role and state: a button is a line of `Pressed`, a step of the
    state machine a line of `Trans`, and the others leave both alone. -/
inductive OwnStep (h h' : Host) : Op → Prop where
  | kept {o : Op} (hr : h'.self.lcmRole = h.self.lcmRole) (hs : h'.self.lcmState = h.self.lcmState)
      (hsh : shell h'.log = shell h.log) : OwnStep h h' o
  | button {b : Button} (hp : Pressed h b h') : OwnStep h h' (.button b)
  | loop {k : Option PushKind} {sh : List Event} (hk : LoopStep h h' k sh) : OwnStep h h' .loop

theorem own_step {h h' : Host} {o : Op} (ho : h.own o = some h') : OwnStep h h' o := by
  cases o with
  | tick clock => obtain rfl := Option.some.inj ho; exact .kept rfl rfl rfl
  | button b => obtain rfl := Option.some.inj ho; exact .button (press_pressed h b)
  | loop =>
      obtain ⟨k, sh, hk⟩ := stateLoop_step ho
      exact .loop hk
  | sync =>
      obtain rfl := Option.some.inj ho
      obtain ⟨hr, hs⟩ := sync_mode h
      exact .kept hr hs (sync_shell h)

/-! ## The ways into a call -/

/-- The device is in a call in the role. -/
def LcmNet.Holds (self : LcmNet) (role : LcmRole) : Prop :=
  self.lcmRole = role ∧ (self.lcmState = .call ∨ self.lcmState = .work)

instance (self : LcmNet) (role : LcmRole) : Decidable (self.Holds role) :=
  inferInstanceAs (Decidable (_ ∧ _))

/-- A step of the state machine: whoever is in a call after it was in one, or has just entered. -/
theorem LoopStep.holds {h h' : Host} {k : Option PushKind} {sh : List Event} {role : LcmRole}
    (hk : LoopStep h h' k sh) (hrole : role = .reqer ∨ role = .reper) (hh : h'.self.Holds role) :
    h.self.Holds role ∨ h.self.Enters role := by
  have ht := hk.trans
  obtain ⟨hr', hs'⟩ := hh
  generalize h'.self.lcmRole = role' at ht hr'
  generalize h'.self.lcmState = state' at ht hs'
  cases ht with
  | stay => exact .inl ⟨hr', hs'⟩
  | push => exact .inl ⟨hr', hs'⟩
  | join => rcases hrole with rfl | rfl <;> simp at hr'
  | enter hw hr hs hn => exact .inr ⟨hw, hr.trans hr', hs, hr' ▸ hn⟩
  | launchReqer _ hr hs _ => exact .inl ⟨hr.trans hr', .inl hs⟩
  | launchReper _ hr hs _ => exact .inl ⟨hr.trans hr', .inl hs⟩
  | timeout | hangUp | hungUp | ended => rcases hrole with rfl | rfl <;> simp at hr'

/-- A button never brings a device into a call. -/
theorem Pressed.holds {h h' : Host} {b : Button} {role : LcmRole} (hp : Pressed h b h')
    (hrole : role = .reqer ∨ role = .reper) (hh : h'.self.Holds role) : h.self.Holds role := by
  obtain ⟨hr, hs⟩ := hh
  cases hp with
  | tryInit | tryExit => rcases hrole with rfl | rfl <;> simp at hr
  | tryReqer hi | tryReper hi => simp [hi] at hs
  | ignored => exact ⟨hr, hs⟩

/-- **Into a call only through `lcm_net_idle_loop`.** -/
theorem OwnStep.holds {h h' : Host} {o : Op} {role : LcmRole} (ho : OwnStep h h' o)
    (hrole : role = .reqer ∨ role = .reper) (hh : h'.self.Holds role) :
    h.self.Holds role ∨ (o = .loop ∧ h.self.Enters role) := by
  cases ho with
  | kept hr hs =>
      obtain ⟨hr', hs'⟩ := hh
      rw [hr] at hr'
      rw [hs] at hs'
      exact .inl ⟨hr', hs'⟩
  | button hp => exact .inl (hp.holds hrole hh)
  | loop hk =>
      rcases hk.holds hrole hh with hold | hnew
      · exact .inl hold
      · exact .inr ⟨rfl, hnew⟩

/-! ## What a step runs -/

/-- The event is a `sample_nng` launch. -/
def Event.isLaunch : Event → Bool
  | .sampleNng _ _ _ _ => true
  | _ => false

/-- The step launches `e`: a call whose requester is at work, and the two registered addresses, the
    other side's first. -/
structure LcmNet.Launches (net : LcmNet) (e : Event) : Prop where
  state : net.lcmState = .call
  work : net.reqState = LcmState.work
  line : (net.lcmRole = .reqer ∧
      e = .sampleNng net.repAddr net.repAddr net.reqAddr net.reqAddr) ∨
    (net.lcmRole = .reper ∧
      e = .sampleNng net.reqAddr net.reqAddr net.repAddr net.repAddr)

/-- A step runs at most one command, and a launch only out of `STATE_CALL`. -/
theorem Trans.launches {self : LcmNet} {role : LcmRole} {state : LcmState} {k : Option PushKind}
    {sh : List Event} (ht : Trans self role state k sh) {e : Event} (he : e.isLaunch = true)
    (hm : e ∈ sh) : self.Launches e := by
  cases ht with
  | launchReqer _ hr hs hq => exact ⟨hs, hq, .inl ⟨hr, List.mem_singleton.mp hm⟩⟩
  | launchReper _ hr hs hq => exact ⟨hs, hq, .inr ⟨hr, List.mem_singleton.mp hm⟩⟩
  | hangUp | hungUp =>
      obtain rfl := List.mem_singleton.mp hm
      simp [Event.isLaunch] at he
  | stay | push | join | enter | timeout | ended => exact absurd hm List.not_mem_nil

theorem Event.isLaunch.mem_shell {e : Event} (he : e.isLaunch = true) {log : List Event}
    (hm : e ∈ log) : e ∈ shell log := by
  refine List.mem_filter.mpr ⟨hm, ?_⟩
  cases e with
  | publish => simp [Event.isLaunch] at he
  | sampleNng | killall => rfl

theorem LoopStep.launches {h h' : Host} {k : Option PushKind} {sh : List Event}
    (hk : LoopStep h h' k sh) (hlog : h.log = []) {e : Event} (he : e.isLaunch = true)
    (hm : e ∈ h'.log) : h.self.Launches e := by
  have hsh : e ∈ DlsSdk.shell h'.log := Event.isLaunch.mem_shell he hm
  rw [hk.shell, hlog] at hsh
  exact hk.trans.launches he hsh

/-- Conversely, in a call whose requester is at work the next step launches. -/
theorem stateLoop_launch {h : Host} (hw : h.self.waitData = true) (hs : h.self.lcmState = .call)
    (hr : h.self.lcmRole = .reqer ∨ h.self.lcmRole = .reper)
    (hq : h.self.reqState = LcmState.work) :
    ∃ h' e, lcmNetStateLoop h = some h' ∧ e.isLaunch = true ∧ e ∈ h'.log := by
  unfold lcmNetStateLoop
  rw [hs]
  refine ⟨lcmNetCallLoop h, ?_⟩
  unfold lcmNetCallLoop
  rcases hr with hr | hr
  · rw [hr]
    dsimp only
    rw [if_pos hw, if_pos hq]
    refine ⟨.sampleNng h.self.repAddr h.self.repAddr h.self.reqAddr h.self.reqAddr, rfl, rfl, ?_⟩
    simp only [emit_log]
    apply List.mem_append_right
    exact List.mem_singleton_self _
  · rw [hr]
    dsimp only
    rw [if_pos hw, if_pos hq]
    refine ⟨.sampleNng h.self.reqAddr h.self.reqAddr h.self.repAddr h.self.repAddr, rfl, rfl, ?_⟩
    simp only [emit_log]
    apply List.mem_append_right
    exact List.mem_singleton_self _

end DlsSdk
