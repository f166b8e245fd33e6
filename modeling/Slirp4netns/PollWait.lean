/-
  slirp4netns formalization — how long `do_slirp` waits (`update_ra_timeout` in
  `slirp4netns.c`).

  libslirp asks for a timeout of 32 bits, with `UINT32_MAX` for none.  The loop
  over the timers lowers it to the time left until the next deadline, and `g_poll`
  gets it as a `gint`, where every negative number means to wait without end.

  `updateTimers_spec` is the loop; `poll_wait` says when the wait is as long as
  libslirp and the timers allow: some time that they allow must be below `2 ^ 31`
  milliseconds, unless no end was asked for, and no deadline may lie so far back
  that the difference overflows.
-/
import Slirp4netns.DoSlirp

namespace Slirp4netns

/-! ## The loop over the timers -/

/-- The deadline of a timer is set. -/
def LibslirpData.Armed (s : LibslirpData) (t : TimerId) : Prop := s.expire t ≠ -1

/-- The milliseconds until the deadline of a timer, 0 if it is over. -/
def LibslirpData.left (s : LibslirpData) (nowMsec : ℤ) (t : TimerId) : ℕ :=
  ((s.expire t).toInt - nowMsec).toNat

section
variable {s : LibslirpData} {nowMsec : ℤ} {timeout : UInt32} {t : TimerId} {timers : List TimerId}

/-- What the loop leaves in `*timeout_msec`. -/
structure Lowered (s : LibslirpData) (nowMsec : ℤ) (timeout : UInt32) (timers : List TimerId)
    (result : UInt32) : Prop where
  le_timeout : result.toNat ≤ timeout.toNat
  le_left : ∀ t ∈ timers, s.Armed t → result.toNat ≤ s.left nowMsec t
  attained : result = timeout ∨ ∃ t ∈ timers, s.Armed t ∧ result.toNat = s.left nowMsec t

theorem updateTimer_run (hdiff : s.Armed t → IsInt64 ((s.expire t).toInt - nowMsec)) :
    ∃ result, (updateTimer nowMsec timeout t).run s = ⟨.ret result, s, []⟩ ∧
      Lowered s nowMsec timeout [t] result := by
  rw [updateTimer, Prog.state_bind_run]
  by_cases harmed : s.expire t ≠ -1
  · have hleft : (if (s.expire t).toInt - nowMsec < 0 then 0 else (s.expire t).toInt - nowMsec) =
        (s.left nowMsec t : ℤ) := by
      unfold LibslirpData.left
      split <;> omega
    have hmem : ∀ u ∈ [t], s.Armed u → s.left nowMsec u = s.left nowMsec t := by
      intro u hu _
      rw [List.mem_singleton.1 hu]
    rw [if_pos harmed, if_neg (not_not.2 (hdiff harmed)), hleft]
    refine ⟨_, rfl, ?_⟩
    split
    · next hlt =>
      have hnat : (UInt32.ofNat (s.left nowMsec t : ℤ).toNat).toNat = s.left nowMsec t := by
        have htimeout := timeout.toNat_lt
        rw [Int.toNat_natCast, UInt32.toNat_ofNat', Nat.mod_eq_of_lt (by omega)]
      refine ⟨by omega, fun u hu h => ?_, .inr ⟨t, by simp, harmed, hnat⟩⟩
      rw [hnat, hmem u hu h]
    · next hge =>
      refine ⟨Nat.le_refl _, fun u hu h => ?_, .inl rfl⟩
      rw [hmem u hu h]
      omega
  · rw [if_neg harmed]
    refine ⟨timeout, rfl, Nat.le_refl _, fun u hu h => ?_, .inl rfl⟩
    rw [List.mem_singleton.1 hu] at h
    exact absurd h harmed

theorem updateTimer_overflow (harmed : s.Armed t)
    (hdiff : ¬ IsInt64 ((s.expire t).toInt - nowMsec)) :
    (updateTimer nowMsec timeout t).run s = ⟨.stop .signedOverflow, s, []⟩ := by
  have hset : s.expire t ≠ -1 := harmed
  rw [updateTimer, Prog.state_bind_run, if_pos hset, if_pos hdiff]
  rfl

theorem Lowered.cons {r r' : UInt32} (h : Lowered s nowMsec timeout [t] r)
    (h' : Lowered s nowMsec r timers r') : Lowered s nowMsec timeout (t :: timers) r' where
  le_timeout := h'.le_timeout.trans h.le_timeout
  le_left := by
    rintro u (_ | ⟨_, hu⟩) harmed
    · exact h'.le_timeout.trans (h.le_left t (by simp) harmed)
    · exact h'.le_left u hu harmed
  attained := by
    rcases h'.attained with rfl | ⟨u, hu, harmed, hleft⟩
    · rcases h.attained with hr | ⟨u, hu, harmed, hleft⟩
      · exact .inl hr
      · rw [List.mem_singleton.1 hu] at harmed hleft
        exact .inr ⟨t, by simp, harmed, hleft⟩
    · exact .inr ⟨u, by simp [hu], harmed, hleft⟩

/-- Without an overflow the timeout is lowered to the least of the times left. -/
theorem updateTimers_spec
    (hdiff : ∀ t ∈ timers, s.Armed t → IsInt64 ((s.expire t).toInt - nowMsec)) :
    ∃ result, (updateTimers nowMsec timeout timers).run s = ⟨.ret result, s, []⟩ ∧
      Lowered s nowMsec timeout timers result := by
  induction timers generalizing timeout with
  | nil => exact ⟨timeout, rfl, Nat.le_refl _, nofun, .inl rfl⟩
  | cons t timers ih =>
    obtain ⟨r, hr, hlow⟩ := @updateTimer_run s nowMsec timeout t (hdiff t (by simp))
    obtain ⟨r', hr', hlow'⟩ := @ih r fun u hu => hdiff u (by simp [hu])
    refine ⟨r', ?_, hlow.cons hlow'⟩
    rw [updateTimers, Prog.bind_of_ret hr, hr']
    rfl

/-- One difference that overflows is enough for undefined behaviour. -/
theorem updateTimers_overflow
    (hdiff : ∃ t ∈ timers, s.Armed t ∧ ¬ IsInt64 ((s.expire t).toInt - nowMsec)) :
    (updateTimers nowMsec timeout timers).run s = ⟨.stop .signedOverflow, s, []⟩ := by
  induction timers generalizing timeout with
  | nil =>
    obtain ⟨t, ht, -⟩ := hdiff
    cases ht
  | cons t timers ih =>
    by_cases hhead : s.Armed t → IsInt64 ((s.expire t).toInt - nowMsec)
    · obtain ⟨r, hr, -⟩ := @updateTimer_run s nowMsec timeout t hhead
      obtain ⟨u, hu, harmed, hover⟩ := hdiff
      have hrest : u ∈ timers := by
        rcases List.mem_cons.1 hu with rfl | hu
        · exact absurd (hhead harmed) hover
        · exact hu
      rw [updateTimers, Prog.bind_of_ret hr, ih ⟨u, hrest, harmed, hover⟩]
      rfl
    · obtain ⟨harmed, hover⟩ := Classical.not_imp.1 hhead
      rw [updateTimers, Prog.bind_of_stop (updateTimer_overflow harmed hover)]

end

/-! ## g_poll -/

/-- The wait of `g_poll` in milliseconds, `none` if it has no end: the argument is a `gint`. -/
def gPollWait (timeout : UInt32) : Option ℕ :=
  if wrapInt timeout.toNat < 0 then none else some (wrapInt timeout.toNat).toNat

/-- `UINT32_MAX`, which libslirp leaves if it asks for no timeout. -/
def noTimeout : UInt32 := 0xffffffff

/-- A wait of at most some time. -/
def WaitsAtMost (timeout : UInt32) (ms : ℤ) : Prop := ∃ n, gPollWait timeout = some n ∧ n ≤ ms

/-- What is expected of the wait: it ends at each deadline and when libslirp wants it to, and has
    no end only if neither says so. -/
structure WaitLaw (s : LibslirpData) (nowMsec : ℤ) (asked timeout : UInt32) : Prop where
  toDeadline : ∀ t ∈ s.timers, s.Armed t →
    WaitsAtMost timeout (max 0 ((s.expire t).toInt - nowMsec))
  toTimeout : asked ≠ noTimeout → WaitsAtMost timeout asked.toNat
  endless : gPollWait timeout = none → asked = noTimeout ∧ ∀ t ∈ s.timers, ¬ s.Armed t

/-- No difference overflows; and the time that libslirp or some timer allows is below `2 ^ 31`, or
    neither sets one. -/
structure Representable (s : LibslirpData) (nowMsec : ℤ) (asked : UInt32) : Prop where
  diff : ∀ t ∈ s.timers, s.Armed t → IsInt64 ((s.expire t).toInt - nowMsec)
  short : asked.toNat < 2 ^ 31 ∨
    (∃ t ∈ s.timers, s.Armed t ∧ (s.expire t).toInt - nowMsec < 2 ^ 31) ∨
    (asked = noTimeout ∧ ∀ t ∈ s.timers, ¬ s.Armed t)

theorem gPollWait_eq (timeout : UInt32) :
    gPollWait timeout = if timeout.toNat < 2 ^ 31 then some timeout.toNat else none := by
  have hlt := timeout.toNat_lt
  have hwrap : wrapInt timeout.toNat =
      if timeout.toNat < 2 ^ 31 then (timeout.toNat : ℤ) else timeout.toNat - 2 ^ 32 := by
    rw [wrapInt, Int.bmod_def]
    split <;> split <;> omega
  rw [gPollWait, hwrap]
  split
  · rw [if_neg (by omega), Int.toNat_natCast]
  · rw [if_pos (by omega)]

theorem waitsAtMost_iff {timeout : UInt32} {ms : ℤ} :
    WaitsAtMost timeout ms ↔ timeout.toNat < 2 ^ 31 ∧ timeout.toNat ≤ ms := by
  rw [WaitsAtMost, gPollWait_eq]
  constructor
  · rintro ⟨n, hn, hle⟩
    split at hn
    · next hlt =>
      cases hn
      exact ⟨hlt, hle⟩
    · cases hn
  · rintro ⟨hlt, hle⟩
    exact ⟨_, if_pos hlt, hle⟩

theorem gPollWait_none {timeout : UInt32} :
    gPollWait timeout = none ↔ ¬ timeout.toNat < 2 ^ 31 := by
  rw [gPollWait_eq]
  split
  · next h => exact iff_of_false nofun (not_not.2 h)
  · next h => exact iff_of_true rfl h

section
variable {s : LibslirpData} {nowMsec : ℤ} {asked timeout : UInt32}

/-- A timeout that is lowered as far as possible obeys the law if it is short, or if it has no end
    and should not have one. -/
theorem Lowered.law_iff (h : Lowered s nowMsec asked s.timers timeout) :
    WaitLaw s nowMsec asked timeout ↔ asked.toNat < 2 ^ 31 ∨
      (∃ t ∈ s.timers, s.Armed t ∧ (s.expire t).toInt - nowMsec < 2 ^ 31) ∨
      (asked = noTimeout ∧ ∀ t ∈ s.timers, ¬ s.Armed t) := by
  have hle := h.le_timeout
  constructor
  · intro hlaw
    by_cases hshort : timeout.toNat < 2 ^ 31
    · rcases h.attained with rfl | ⟨t, ht, harmed, hleft⟩
      · exact .inl hshort
      · refine .inr (.inl ⟨t, ht, harmed, ?_⟩)
        unfold LibslirpData.left at hleft
        omega
    · exact .inr (.inr (hlaw.endless (gPollWait_none.2 hshort)))
  · intro hcases
    have hbounds : timeout.toNat < 2 ^ 31 → WaitLaw s nowMsec asked timeout := by
      intro hshort
      refine ⟨fun t ht harmed => ?_, fun _ => ?_, fun hnone => ?_⟩
      · have hleft := h.le_left t ht harmed
        unfold LibslirpData.left at hleft
        exact waitsAtMost_iff.2 ⟨hshort, by omega⟩
      · exact waitsAtMost_iff.2 ⟨hshort, by omega⟩
      · exact absurd hshort (gPollWait_none.1 hnone)
    rcases hcases with hasked | ⟨t, ht, harmed, hdiff⟩ | ⟨hasked, hnone⟩
    · exact hbounds (by omega)
    · have hleft := h.le_left t ht harmed
      unfold LibslirpData.left at hleft
      exact hbounds (by omega)
    · exact ⟨fun t ht harmed => absurd harmed (hnone t ht), fun hne => absurd hasked hne,
        fun _ => ⟨hasked, hnone⟩⟩

/-- The wait is as expected exactly if the timeout is representable. -/
theorem waitLaw_iff : (∃ timeout, ((updateTimers nowMsec asked s.timers).run s).out = .ret timeout ∧
      WaitLaw s nowMsec asked timeout) ↔ Representable s nowMsec asked := by
  by_cases hdiff : ∀ t ∈ s.timers, s.Armed t → IsInt64 ((s.expire t).toInt - nowMsec)
  · obtain ⟨result, hrun, hlow⟩ := @updateTimers_spec s nowMsec asked s.timers hdiff
    rw [hrun]
    constructor
    · rintro ⟨timeout, ⟨⟩, hlaw⟩
      exact ⟨hdiff, hlow.law_iff.1 hlaw⟩
    · intro h
      exact ⟨result, rfl, hlow.law_iff.2 h.short⟩
  · have hover : ∃ t ∈ s.timers, s.Armed t ∧ ¬ IsInt64 ((s.expire t).toInt - nowMsec) := by
      push Not at hdiff
      exact hdiff
    rw [updateTimers_overflow hover]
    constructor
    · rintro ⟨timeout, ⟨⟩, -⟩
    · intro h
      exact absurd h.diff hdiff

end

/-! ## In the loop of do_slirp -/

section
variable {L : Libslirp}

/-- How `update_ra_timeout` ends, with the timers and the clock of a state. -/
def LibslirpData.updated (data : LibslirpData) (asked : UInt32) : Outcome Stop UInt32 :=
  ((updateTimers data.nowMsec asked data.timers).run data).out

/-- The loop over the timers changes nothing but the timeout. -/
theorem updateRaTimeout_run (asked : UInt32) (data : LibslirpData) :
    (updateRaTimeout asked).run data = ⟨data.updated asked, data, [.clockGettime]⟩ := by
  have hst : (updateTimers data.nowMsec asked data.timers).run data =
      ⟨data.updated asked, data, []⟩ := by
    unfold LibslirpData.updated
    by_cases hdiff : ∀ t ∈ data.timers, data.Armed t →
        IsInt64 ((data.expire t).toInt - data.nowMsec)
    · obtain ⟨result, hrun, -⟩ := @updateTimers_spec data data.nowMsec asked data.timers hdiff
      rw [hrun]
    · push Not at hdiff
      rw [updateTimers_overflow hdiff]
  exact congrArg (Ran.after [CbEvent.clockGettime]) hst

/-- `g_poll` was not called yet. -/
def NotPolled (es : List Act) : Prop := ∀ fds timeout rc, .gPoll fds timeout rc ∉ es

/-- `g_poll` was called with nothing but the updated timeout. -/
def PolledWith (asked : UInt32) (es : List Act) (s : SlirpState L) : Prop :=
  ∀ fds timeout rc, .gPoll fds timeout rc ∈ es → s.data.updated asked = .ret timeout

theorem NotPolled.polledWith {es : List Act} (h : NotPolled es) (asked : UInt32)
    (s : SlirpState L) : PolledWith asked es s :=
  fun fds timeout rc hmem => absurd hmem (h fds timeout rc)

/-- Code that does not call `g_poll`. -/
abbrev Pollless {α : Type} (p : SlirpProg L α) : Prop :=
  Prog.AllCalls (fun e => ∀ fds timeout rc, e ≠ .gPoll fds timeout rc) p

theorem onData_pollless {α : Type} (p : CbProg α) : Pollless (onData p : SlirpProg L α) :=
  .lift fun _ _ _ _ _ => nofun

theorem addPolls_pollless (fill : List (ℤ × BitVec 32)) : Pollless (addPolls (L := L) fill) :=
  (addPolls_keeps (g := SlirpState.nFds) (fun _ _ => rfl) (fun _ _ _ => nofun) fill).calls

theorem notPolled_triple {α : Type} {p : SlirpProg L α} (asked : UInt32) (hp : Pollless p) :
    Prog.Triple (fun es _ => NotPolled es) p (fun _ es _ => NotPolled es)
      fun _ => PolledWith asked := by
  have hquiet := Prog.Triple.of_allCalls (I := NotPolled) hp fun es e he h fds timeout rc hmem => by
    rcases List.mem_append.1 hmem with hmem | hmem
    · exact h fds timeout rc hmem
    · exact he fds timeout rc (List.mem_singleton.1 hmem).symm
  exact hquiet.conseq_stop fun _ _ s h => h.polledWith asked s

/-- `update_ra_timeout` does not poll and leaves what the timers make of the timeout. -/
theorem onData_updateRaTimeout_triple (asked : UInt32) :
    Prog.Triple (fun es _ => NotPolled es)
      (onData (updateRaTimeout asked) : SlirpProg L UInt32)
      (fun timeout es s => NotPolled es ∧ s.data.updated asked = .ret timeout)
      fun _ => PolledWith asked := by
  intro es s h
  have hquiet := notPolled_triple asked (onData_pollless (updateRaTimeout asked)) es s h
  simp only [onData, Prog.lift, updateRaTimeout_run] at hquiet ⊢
  cases hout : s.data.updated asked with
  | ret timeout =>
    rw [hout] at hquiet
    exact ⟨hquiet, rfl⟩
  | stop why =>
    rw [hout] at hquiet
    exact hquiet

theorem pollFds_polledWith (tick : Tick) :
    Prog.Triple (fun es _ => NotPolled es) (pollFds (L := L) tick)
      (fun _ => PolledWith tick.timeout) fun _ => PolledWith tick.timeout := by
  refine .bind (notPolled_triple _ (.update _)) fun _ =>
    .bind (notPolled_triple _ (.call nofun)) fun _ =>
      .bind (notPolled_triple _ (addPolls_pollless _)) fun _ =>
        .bind (notPolled_triple _ (onData_pollless _)) fun _ =>
          .bind (notPolled_triple _ (onData_pollless _)) fun _ =>
            .bind (onData_updateRaTimeout_triple _) fun timeout => .state_bind fun s₀ => ?_
  have hgpoll : ∀ (rc : ℤ) (es : List Act) (s : SlirpState L),
      PolledWith tick.timeout es s ∧ s.data.updated tick.timeout = .ret timeout →
      PolledWith tick.timeout
        (es ++ [.gPoll (s₀.pollfds.map fun pfd => (pfd.fd, pfd.events)) timeout rc]) s ∧
        s.data.updated tick.timeout = .ret timeout := by
    rintro rc es s ⟨hpolled, hout⟩
    refine ⟨fun fds timeout' rc' hmem => ?_, hout⟩
    rcases List.mem_append.1 hmem with hmem | hmem
    · exact hpolled fds timeout' rc' hmem
    · cases List.mem_singleton.1 hmem
      exact hout
  refine .bind (Q := fun _ => PolledWith tick.timeout) ?_ fun r => .pure fun _ _ h => h
  refine Prog.Triple.conseq_stop (Prog.Triple.conseq (retry_triple (hgpoll (-1)) fun r => ?_) ?_ ?_)
    fun _ _ _ h => h.1
  · cases r <;> exact hgpoll _
  · rintro es s ⟨⟨h, hout⟩, -⟩
    exact ⟨h.polledWith _ s, hout⟩
  · exact fun _ _ _ h => h.2.1

/-- What `g_poll` gets in a turn of the loop is what `update_ra_timeout` makes of the timeout that
    libslirp leaves, with the timers and the clock of that moment. -/
theorem gPoll_timeout (tick : Tick) (s : SlirpState L) (fds : List (ℤ × BitVec 16))
    (timeout : UInt32) (rc : ℤ) (h : .gPoll fds timeout rc ∈ ((pollFds tick).run s).calls) :
    ((pollFds tick).run s).st.data.updated tick.timeout = .ret timeout := by
  have hrun := pollFds_polledWith tick [] s fun _ _ _ => List.not_mem_nil
  split at hrun <;> exact hrun fds timeout rc h

end

/-- **How long `do_slirp` waits**: up to each deadline and up to the timeout that libslirp asks for,
    exactly if the timeout is representable; and the timeout that `g_poll` gets is the one that is
    computed from the timers and the clock of that moment. -/
theorem poll_wait (s : LibslirpData) (nowMsec : ℤ) (asked : UInt32) :
    ((∃ timeout, ((updateTimers nowMsec asked s.timers).run s).out = .ret timeout ∧
      WaitLaw s nowMsec asked timeout) ↔ Representable s nowMsec asked) ∧
    ∀ (L : Libslirp) (tick : Tick) (s : SlirpState L) fds timeout rc,
      .gPoll fds timeout rc ∈ ((pollFds tick).run s).calls →
      let data := ((pollFds tick).run s).st.data
      ((updateTimers data.nowMsec tick.timeout data.timers).run data).out = .ret timeout :=
  ⟨waitLaw_iff, fun _ => gPoll_timeout⟩

/-- A timer that is due in 3000000000 milliseconds. -/
def farTimer : LibslirpData := LibslirpData.init.append.setExpire 0 3000000000

/-- Without timers and with a timeout of 3000000000 milliseconds the wait has no end; nor has it
    with a timer that is due in as many milliseconds and no other timeout. -/
theorem poll_wait_endless :
    (((updateTimers 0 3000000000 LibslirpData.init.timers).run LibslirpData.init).out =
      .ret 3000000000 ∧ LibslirpData.init.timers = []) ∧
    (((updateTimers 0 noTimeout farTimer.timers).run farTimer).out = .ret 3000000000 ∧
      farTimer.timers = [0] ∧ farTimer.Armed 0) ∧
    gPollWait 3000000000 = none := by
  have harmed : farTimer.expire 0 ≠ -1 := by decide +kernel
  exact ⟨⟨by decide +kernel, rfl⟩, ⟨by decide +kernel, rfl, harmed⟩, by decide +kernel⟩

end Slirp4netns
