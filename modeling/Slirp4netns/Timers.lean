/-
  slirp4netns formalization — the callbacks of libslirp, and its timers.

  libslirp calls back into the program: it sends packets, reads the clock, asks
  for timers with `timer_new`, sets their deadlines with `timer_mod` and gives
  them back with `timer_free`; `check_ra_timeout` calls the functions of the
  timers that are due.  A timer is named by the number of its allocation.  The
  list and the deadlines are the state; what the callbacks do is recorded as a
  trace of `CbEvent`s.

  The function of a timer calls back in its turn.  What it does in a pass of
  `check_ra_timeout` is a parameter of the pass, a list of calls for each timer.

  * `FiresDue`, `LeavesNoneDue`: when the function of a timer may be called, and
    what a pass must not leave undone, as laws of the trace;
  * `Walking`: what holds while a pass walks the list, which the functions it
    calls change under it;
  * `timers_fire_when_due`: every run obeys the laws, if no pass meets a deadline
    too far in the past.
-/
import Slirp4netns.Libslirp
import Slirp4netns.Lib.Hoare
import Slirp4netns.Lib.Run
import Slirp4netns.Lib.Trace
import Mathlib.Data.List.Nodup

namespace Slirp4netns

/-- The number of an allocation. -/
abbrev TimerId := ℕ

/-- `struct libslirp_data`, with the deadlines of its timers and the clock in nanoseconds. -/
structure LibslirpData where
  timers : List TimerId
  /-- `expire_timer_msec` -/
  expire : TimerId → Int64
  /-- the next allocation -/
  fresh : TimerId
  clockNs : Int64
  nodup : timers.Nodup
  lt_fresh : ∀ t ∈ timers, t < fresh
  clock_nonneg : 0 ≤ clockNs.toInt

/-- What the callbacks do. -/
inductive CbEvent where
  /-- to the tap device -/
  | write (pkt : Bytes) (rc : ℤ)
  | fprintf (text : Bytes)
  | clockGettime
  | new (t : TimerId)
  /-- `timer_mod`, called by the function of a timer or from elsewhere -/
  | mod (caller : Option TimerId) (t : TimerId) (d : Int64)
  | free (t : TimerId)
  /-- the function of a timer is called -/
  | fire (t : TimerId)
  /-- `check_ra_timeout` starts at this time -/
  | pass (nowMsec : ℤ)
  /-- `check_ra_timeout` returns -/
  | done (nowMsec : ℤ)
  deriving DecidableEq

/-- Code of the callbacks. -/
abbrev CbProg := Prog LibslirpData CbEvent Stop

namespace LibslirpData

/-- No timers, at the start of the clock. -/
def init : LibslirpData where
  timers := []
  expire _ := -1
  fresh := 0
  clockNs := 0
  nodup := List.nodup_nil
  lt_fresh _ h := absurd h List.not_mem_nil
  clock_nonneg := by decide

/-- A new timer at the end of the list, which is not armed. -/
def append (s : LibslirpData) : LibslirpData where
  timers := s.timers ++ [s.fresh]
  expire := Function.update s.expire s.fresh (-1)
  fresh := s.fresh + 1
  clockNs := s.clockNs
  nodup := by
    rw [List.nodup_append]
    refine ⟨s.nodup, List.nodup_singleton _, fun t ht u hu => ?_⟩
    rw [List.mem_singleton.1 hu]
    exact (s.lt_fresh t ht).ne
  lt_fresh t ht := by
    rcases List.mem_append.1 ht with ht | ht
    · exact (s.lt_fresh t ht).trans (Nat.lt_succ_self _)
    · rw [List.mem_singleton.1 ht]; exact Nat.lt_succ_self _
  clock_nonneg := s.clock_nonneg

/-- A timer gets a deadline. -/
def setExpire (t : TimerId) (d : Int64) (s : LibslirpData) : LibslirpData :=
  { s with expire := Function.update s.expire t d }

/-- A timer is taken out of the list. -/
def remove (t : TimerId) (s : LibslirpData) : LibslirpData :=
  { s with
    timers := s.timers.erase t
    nodup := s.nodup.erase t
    lt_fresh := fun u hu => s.lt_fresh u (List.mem_of_mem_erase hu) }

/-- The clock goes on, never back. -/
def advance (ns : Int64) (s : LibslirpData) : LibslirpData :=
  if h : s.clockNs ≤ ns then
    { s with
      clockNs := ns
      clock_nonneg := s.clock_nonneg.trans (Int64.le_iff_toInt_le.1 h) }
  else s

/-- `libslirp_clock_get_ns(data) / 1000000` -/
def nowMsec (s : LibslirpData) : ℤ := s.clockNs.toInt / 1000000

end LibslirpData

/-! ## The callbacks -/

/-- `libslirp_send_packet` -/
def libslirpSendPacket (pkt : Bytes) (rc : ℤ) : CbProg ℤ := do
  Prog.call (.write pkt rc)
  return rc

/-- `libslirp_guest_error` -/
def libslirpGuestError (msg : Bytes) : CbProg Unit :=
  Prog.call (.fprintf (bytes "libslirp: " ++ cstr msg ++ [10]))

/-- `libslirp_clock_get_ns` -/
def libslirpClockGetNs : CbProg ℤ := do
  Prog.call .clockGettime
  let s ← Prog.state
  return s.clockNs.toInt

/-- `libslirp_timer_new` -/
def libslirpTimerNew : CbProg TimerId := do
  let s ← Prog.state
  Prog.update LibslirpData.append
  Prog.call (.new s.fresh)
  return s.fresh

/-- `libslirp_timer_free` -/
def libslirpTimerFree (t : TimerId) : CbProg Unit := do
  Prog.update (LibslirpData.remove t)
  Prog.call (.free t)

/-- `libslirp_timer_mod` -/
def libslirpTimerMod (caller : Option TimerId) (t : TimerId) (d : Int64) : CbProg Unit := do
  Prog.update (LibslirpData.setExpire t d)
  Prog.call (.mod caller t d)

/-- `libslirp_register_poll_fd` -/
def libslirpRegisterPollFd (_fd : ℤ) : CbProg Unit := return ()

/-- `libslirp_unregister_poll_fd` -/
def libslirpUnregisterPollFd (_fd : ℤ) : CbProg Unit := return ()

/-- `libslirp_notify` -/
def libslirpNotify : CbProg Unit := return ()

/-- A call of one of `libslirp_cb`, by libslirp. -/
inductive SlirpCb where
  | sendPacket (pkt : Bytes) (rc : ℤ)
  | guestError (msg : Bytes)
  | clockGetNs
  | timerNew
  | timerFree (t : TimerId)
  | timerMod (t : TimerId) (d : Int64)
  | registerPollFd (fd : ℤ)
  | unregisterPollFd (fd : ℤ)
  | notify
  deriving DecidableEq

/-- The call, made by the function of a timer or from elsewhere. -/
def SlirpCb.exec (caller : Option TimerId) : SlirpCb → CbProg Unit
  | sendPacket pkt rc => do let _ ← libslirpSendPacket pkt rc
  | guestError msg => libslirpGuestError msg
  | clockGetNs => do let _ ← libslirpClockGetNs
  | timerNew => do let _ ← libslirpTimerNew
  | timerFree t => libslirpTimerFree t
  | timerMod t d => libslirpTimerMod caller t d
  | registerPollFd fd => libslirpRegisterPollFd fd
  | unregisterPollFd fd => libslirpUnregisterPollFd fd
  | notify => libslirpNotify

/-- Several calls, one after the other. -/
def slirpCbs (caller : Option TimerId) : List SlirpCb → CbProg Unit
  | [] => pure ()
  | c :: cbs => do
    c.exec caller
    slirpCbs caller cbs

namespace SlirpCb

/-- Only live timers are set and freed. -/
def Live (timers : List TimerId) : SlirpCb → Prop
  | timerFree t => t ∈ timers
  | timerMod t _ => t ∈ timers
  | _ => True

/-- No timer is asked for, and none is freed. -/
def KeepsList : SlirpCb → Prop
  | timerNew => False
  | timerFree _ => False
  | _ => True

/-- A deadline is not further in the past than `int64_t` can tell. -/
def InRange (nowMsec : ℤ) : SlirpCb → Prop
  | timerMod _ d => nowMsec - 2 ^ 63 ≤ d.toInt
  | _ => True

end SlirpCb

/-! ## Timeouts -/

/-- What the functions of the timers do in a pass. -/
abbrev TimerCbs := TimerId → List SlirpCb

/-- The function of a timer. -/
def timerCb (cb : TimerCbs) (t : TimerId) : CbProg Unit := do
  Prog.call (.fire t)
  slirpCbs (some t) (cb t)

/-- The body of the loop of `check_ra_timeout`. -/
def checkTimer (cb : TimerCbs) (nowMsec : ℤ) (t : TimerId) : CbProg Unit := do
  let s ← Prog.state
  if s.expire t ≠ -1 then
    let diff := (s.expire t).toInt - nowMsec
    if ¬ IsInt64 diff then Prog.stop .signedOverflow
    else if diff ≤ 0 then
      Prog.update (LibslirpData.setExpire t (-1))
      timerCb cb t
    else pure ()
  else pure ()

/-- The loop of `check_ra_timeout`, if the functions it calls leave the list as it is. -/
def checkTimers (cb : TimerCbs) (nowMsec : ℤ) : List TimerId → CbProg Unit
  | [] => pure ()
  | t :: timers => do
    checkTimer cb nowMsec t
    checkTimers cb nowMsec timers

/-- `check_ra_timeout` -/
def checkRaTimeout (cb : TimerCbs) : CbProg Unit := do
  let ns ← libslirpClockGetNs
  let nowMsec := ns / 1000000
  Prog.call (.pass nowMsec)
  let s ← Prog.state
  checkTimers cb nowMsec s.timers
  Prog.call (.done nowMsec)

/-- The body of the loop of `update_ra_timeout`. -/
def updateTimer (nowMsec : ℤ) (timeoutMsec : UInt32) (t : TimerId) : CbProg UInt32 := do
  let s ← Prog.state
  if s.expire t ≠ -1 then
    let diff := (s.expire t).toInt - nowMsec
    if ¬ IsInt64 diff then Prog.stop .signedOverflow
    else
      let diff := if diff < 0 then 0 else diff
      return if diff < timeoutMsec.toNat then UInt32.ofNat diff.toNat else timeoutMsec
  else return timeoutMsec

/-- The loop of `update_ra_timeout`. -/
def updateTimers (nowMsec : ℤ) (timeoutMsec : UInt32) : List TimerId → CbProg UInt32
  | [] => return timeoutMsec
  | t :: timers => do
    let timeoutMsec ← updateTimer nowMsec timeoutMsec t
    updateTimers nowMsec timeoutMsec timers

/-- `update_ra_timeout` -/
def updateRaTimeout (timeoutMsec : UInt32) : CbProg UInt32 := do
  let ns ← libslirpClockGetNs
  let s ← Prog.state
  updateTimers (ns / 1000000) timeoutMsec s.timers

/-! ## Traces -/

/-- An event of a timer. -/
def CbEvent.about (t : TimerId) : CbEvent → Bool
  | new u | mod _ u _ | free u | fire u => u = t
  | _ => false

/-- The deadline that an event gives to its timer; `-1` if it disarms it. -/
def CbEvent.deadline : CbEvent → Int64
  | mod _ _ d => d
  | _ => -1

/-- The deadline of a timer after a trace, `-1` if it is not armed. -/
def deadline (es : List CbEvent) (t : TimerId) : Int64 :=
  ((latest (CbEvent.about t) es).map CbEvent.deadline).getD (-1)

theorem deadline_snoc_pos {es : List CbEvent} {e : CbEvent} {t : TimerId}
    (h : e.about t = true) : deadline (es ++ [e]) t = e.deadline := by
  rw [deadline, latest_snoc_pos h]; rfl

theorem deadline_snoc_neg {es : List CbEvent} {e : CbEvent} {t : TimerId}
    (h : ¬ e.about t = true) : deadline (es ++ [e]) t = deadline es t := by
  rw [deadline, latest_snoc_neg h]; rfl

/-- An armed timer was armed by its last event. -/
theorem latest_of_deadline {es : List CbEvent} {t : TimerId} (h : deadline es t ≠ -1) :
    ∃ c, latest (CbEvent.about t) es = some (.mod c t (deadline es t)) := by
  unfold deadline at h ⊢
  rcases hl : latest (CbEvent.about t) es with _ | e
  · simp [hl] at h
  · rw [hl] at h
    cases e with
    | mod c u d =>
      have hu : u = t := by simpa [CbEvent.about] using (mem_of_latest hl).2
      exact ⟨c, by rw [hu]; rfl⟩
    | _ => exact absurd rfl h

/-- The deadline of a timer in the state. -/
def LibslirpData.deadline (s : LibslirpData) (t : TimerId) : Int64 :=
  if t ∈ s.timers then s.expire t else -1

/-- The trace tells the deadlines. -/
def Tracks (es : List CbEvent) (s : LibslirpData) : Prop :=
  ∀ t, Slirp4netns.deadline es t = s.deadline t

/-- `seg` is what happened since the start of the pass that is going on. -/
def InPass (es : List CbEvent) (nowMsec : ℤ) (seg : List CbEvent) : Prop :=
  ∃ es₀, es = es₀ ++ .pass nowMsec :: seg ∧ ∀ e ∈ seg, ∀ n, e ≠ .pass n ∧ e ≠ .done n

/-- A callback is called in a pass, not a second time in it, and only for a timer whose last event
    was to be armed with a deadline that is over. -/
def FiresDue (before : List CbEvent) : CbEvent → Prop
  | .fire t => ∃ nowMsec seg c d, InPass before nowMsec seg ∧ .fire t ∉ seg ∧
      latest (CbEvent.about t) before = some (.mod c t d) ∧ d ≠ -1 ∧ d.toInt ≤ nowMsec
  | _ => True

/-- When a pass returns, a timer that is due was armed last by a callback in that pass. -/
def LeavesNoneDue (before : List CbEvent) : CbEvent → Prop
  | .done nowMsec => ∃ seg, InPass before nowMsec seg ∧ ∀ t, deadline before t ≠ -1 →
      (deadline before t).toInt ≤ nowMsec → ∃ u, .fire u ∈ seg ∧
        latest (CbEvent.about t) seg = some (.mod (some u) t (deadline before t))
  | _ => True

/-- Both laws of an event. -/
def Lawful (before : List CbEvent) (e : CbEvent) : Prop :=
  FiresDue before e ∧ LeavesNoneDue before e

/-- An event that has nothing to do with timers. -/
def CbEvent.Plain : CbEvent → Prop
  | write .. => True
  | fprintf _ => True
  | clockGettime => True
  | _ => False

theorem CbEvent.Plain.about {e : CbEvent} (h : e.Plain) (t : TimerId) : e.about t = false := by
  cases e <;> first | rfl | exact h.elim

theorem CbEvent.Plain.no_mark {e : CbEvent} (h : e.Plain) (n : ℤ) : e ≠ .pass n ∧ e ≠ .done n := by
  constructor
  · rintro rfl; exact h
  · rintro rfl; exact h

theorem CbEvent.Plain.lawful {e : CbEvent} (h : e.Plain) (before : List CbEvent) :
    Lawful before e := by
  cases e <;> first | exact ⟨trivial, trivial⟩ | exact h.elim

/-- What a callback keeps: the events of the other callbacks are plain. -/
theorem SlirpCb.exec_triple {caller : Option TimerId} {P : List CbEvent → LibslirpData → Prop}
    {E : Stop → List CbEvent → LibslirpData → Prop} (c : SlirpCb)
    (hplain : ∀ es s e, CbEvent.Plain e → P es s → P (es ++ [e]) s)
    (hnew : c = .timerNew → Prog.Triple P libslirpTimerNew (fun _ => P) E)
    (hfree : ∀ t, c = .timerFree t → Prog.Triple P (libslirpTimerFree t) (fun _ => P) E)
    (hmod : ∀ t d, c = .timerMod t d → Prog.Triple P (libslirpTimerMod caller t d) (fun _ => P) E) :
    Prog.Triple P (c.exec caller) (fun _ => P) E := by
  cases c with
  | sendPacket pkt rc =>
    exact .bind (Q := fun _ => P) (.bind (Q := fun _ => P) (.call fun es s => hplain es s _ trivial)
      fun _ => .pure fun _ _ h => h) fun _ => .pure fun _ _ h => h
  | guestError msg => exact .call fun es s => hplain es s _ trivial
  | clockGetNs =>
    exact .bind (Q := fun _ => P) (.bind (Q := fun _ => P) (.call fun es s => hplain es s _ trivial)
      fun _ => .state_bind fun _ => .pure fun _ _ h => h.1) fun _ => .pure fun _ _ h => h
  | timerNew => exact .bind (hnew rfl) fun _ => .pure fun _ _ h => h
  | timerFree t => exact hfree t rfl
  | timerMod t d => exact hmod t d rfl
  | registerPollFd fd => exact .pure fun _ _ h => h
  | unregisterPollFd fd => exact .pure fun _ _ h => h
  | notify => exact .pure fun _ _ h => h

/-! ## What keeps the trace right -/

theorem Tracks.append {es : List CbEvent} {s : LibslirpData} (h : Tracks es s) :
    Tracks (es ++ [.new s.fresh]) s.append := by
  intro t
  by_cases ht : s.fresh = t
  · rw [deadline_snoc_pos (by simpa [CbEvent.about] using ht), LibslirpData.deadline]
    simp [LibslirpData.append, CbEvent.deadline, ht]
  · rw [deadline_snoc_neg (by simpa [CbEvent.about] using ht), h t]
    simp [LibslirpData.deadline, LibslirpData.append, Ne.symm ht]

theorem Tracks.setExpire {es : List CbEvent} {s : LibslirpData} (h : Tracks es s)
    {t : TimerId} (ht : t ∈ s.timers) {d : Int64} {e : CbEvent}
    (habout : ∀ u, e.about u = decide (t = u)) (hd : e.deadline = d) :
    Tracks (es ++ [e]) (s.setExpire t d) := by
  intro u
  by_cases hu : t = u
  · subst hu
    rw [deadline_snoc_pos (by simp [habout]), hd]
    simp [LibslirpData.deadline, LibslirpData.setExpire, ht]
  · rw [deadline_snoc_neg (by simpa [habout] using hu), h u]
    simp [LibslirpData.deadline, LibslirpData.setExpire, Ne.symm hu]

theorem Tracks.remove {es : List CbEvent} {s : LibslirpData} (h : Tracks es s) (t : TimerId) :
    Tracks (es ++ [.free t]) (s.remove t) := by
  intro u
  by_cases hu : t = u
  · subst hu
    rw [deadline_snoc_pos (by simp [CbEvent.about])]
    simp [LibslirpData.deadline, LibslirpData.remove, s.nodup.mem_erase_iff, CbEvent.deadline]
  · rw [deadline_snoc_neg (by simpa [CbEvent.about] using hu), h u]
    simp [LibslirpData.deadline, LibslirpData.remove, s.nodup.mem_erase_iff, Ne.symm hu]

theorem Tracks.mark {es : List CbEvent} {s : LibslirpData} (h : Tracks es s) {e : CbEvent}
    (he : ∀ t, e.about t = false) : Tracks (es ++ [e]) s := by
  intro t
  rw [deadline_snoc_neg (by simp [he]), h t]

/-! ## One pass -/

/-- What holds while a pass at `nowMsec` walks the timers, after it has visited some. -/
structure Walking (nowMsec : ℤ) (timers visited : List TimerId) (es : List CbEvent)
    (s : LibslirpData) : Prop where
  lawful : Always Lawful es
  tracks : Tracks es s
  timers_eq : s.timers = timers
  range : ∀ t ∈ timers, nowMsec - 2 ^ 63 ≤ (s.expire t).toInt
  seg : ∃ seg, InPass es nowMsec seg ∧ (∀ t, .fire t ∈ seg → t ∈ visited) ∧
    ∀ t ∈ visited, deadline es t ≠ -1 → (deadline es t).toInt ≤ nowMsec → ∃ u, .fire u ∈ seg ∧
      latest (CbEvent.about t) seg = some (.mod (some u) t (deadline es t))

theorem InPass.snoc {es seg : List CbEvent} {nowMsec : ℤ} (h : InPass es nowMsec seg)
    {e : CbEvent} (he : ∀ n, e ≠ .pass n ∧ e ≠ .done n) :
    InPass (es ++ [e]) nowMsec (seg ++ [e]) := by
  obtain ⟨es₀, rfl, hseg⟩ := h
  refine ⟨es₀, by simp, fun f hf => ?_⟩
  rcases List.mem_append.1 hf with hf | hf
  · exact hseg f hf
  · rw [List.mem_singleton.1 hf]; exact he

theorem InPass.unique {es seg seg' : List CbEvent} {n n' : ℤ} (h : InPass es n seg)
    (h' : InPass es n' seg') : seg = seg' := by
  obtain ⟨es₀, rfl, hseg⟩ := h
  obtain ⟨es₁, heq, hseg'⟩ := h'
  rcases List.append_eq_append_iff.1 heq with ⟨_ | ⟨f, c⟩, -, hc⟩ | ⟨_ | ⟨f, c⟩, -, hc⟩
  · exact (List.cons.inj hc).2
  · exact absurd rfl (hseg (.pass n') (by simp [(List.cons.inj hc).2]) n').1
  · exact (List.cons.inj hc).2.symm
  · exact absurd rfl (hseg' (.pass n) (by simp [(List.cons.inj hc).2]) n).1

/-- A callback was called in the pass that is going on. -/
def FiredInPass (nowMsec : ℤ) (c : TimerId) (es : List CbEvent) : Prop :=
  ∃ seg, InPass es nowMsec seg ∧ .fire c ∈ seg

theorem FiredInPass.mem {nowMsec : ℤ} {c : TimerId} {es seg : List CbEvent}
    (h : FiredInPass nowMsec c es) (hseg : InPass es nowMsec seg) : .fire c ∈ seg := by
  obtain ⟨seg', hseg', hc⟩ := h
  exact hseg'.unique hseg ▸ hc

theorem FiredInPass.snoc {nowMsec : ℤ} {c : TimerId} {es : List CbEvent}
    (h : FiredInPass nowMsec c es) {e : CbEvent} (he : ∀ n, e ≠ .pass n ∧ e ≠ .done n) :
    FiredInPass nowMsec c (es ++ [e]) := by
  obtain ⟨seg, hseg, hc⟩ := h
  exact ⟨_, hseg.snoc he, List.mem_append_left _ hc⟩

section
variable {nowMsec : ℤ} {timers visited : List TimerId} {es : List CbEvent} {s : LibslirpData}

/-- A callback does something else. -/
theorem Walking.plain (h : Walking nowMsec timers visited es s) {e : CbEvent} (he : e.Plain) :
    Walking nowMsec timers visited (es ++ [e]) s := by
  obtain ⟨seg, hseg, hfires, hvisited⟩ := h.seg
  have hno (t : TimerId) : ¬ e.about t = true := by simp [he.about]
  refine ⟨h.lawful.snoc (he.lawful es), h.tracks.mark he.about, h.timers_eq, h.range, seg ++ [e],
    hseg.snoc he.no_mark, fun t ht => hfires t ?_, fun t ht h₁ h₂ => ?_⟩
  · rcases List.mem_append.1 ht with ht | ht
    · exact ht
    · exact absurd (by rw [← List.mem_singleton.1 ht]; simp [CbEvent.about]) (hno t)
  · rw [deadline_snoc_neg (hno t)] at h₁ h₂ ⊢
    obtain ⟨u, hu, hl⟩ := hvisited t ht h₁ h₂
    exact ⟨u, List.mem_append_left _ hu, by rw [latest_snoc_neg (hno t), hl]⟩

/-- A timer is armed or disarmed. -/
theorem Walking.mod (h : Walking nowMsec timers visited es s) {c t : TimerId} {d : Int64}
    (hc : FiredInPass nowMsec c es) (ht : t ∈ timers)
    (hd : nowMsec - 2 ^ 63 ≤ d.toInt) :
    Walking nowMsec timers visited (es ++ [.mod (some c) t d]) (s.setExpire t d) := by
  obtain ⟨seg, hseg, hfires, hvisited⟩ := h.seg
  refine ⟨h.lawful.snoc ⟨trivial, trivial⟩,
    h.tracks.setExpire (by rw [h.timers_eq]; exact ht) (fun _ => rfl) rfl, h.timers_eq, ?_, ?_⟩
  · intro u hu
    by_cases htu : u = t
    · subst htu; simpa [LibslirpData.setExpire] using hd
    · simpa [LibslirpData.setExpire, htu] using h.range u hu
  · refine ⟨seg ++ [.mod (some c) t d], hseg.snoc (by simp), fun u hu => ?_, fun u hu h₁ h₂ => ?_⟩
    · exact hfires u (by simpa using hu)
    · by_cases htu : t = u
      · subst htu
        rw [deadline_snoc_pos (by simp [CbEvent.about])]
        exact ⟨c, List.mem_append_left _ (hc.mem hseg),
          latest_snoc_pos (by simp [CbEvent.about])⟩
      · have hno : ¬ (CbEvent.mod (some c) t d).about u = true := by
          simpa [CbEvent.about] using htu
        rw [deadline_snoc_neg hno] at h₁ h₂ ⊢
        obtain ⟨v, hv, hl⟩ := hvisited u hu h₁ h₂
        exact ⟨v, List.mem_append_left _ hv, by rw [latest_snoc_neg hno, hl]⟩

/-- The callback of a timer that is due is called. -/
theorem Walking.fire (h : Walking nowMsec timers visited es s) {t : TimerId} (ht : t ∈ timers)
    (hnew : t ∉ visited) (harmed : s.expire t ≠ -1) (hdue : (s.expire t).toInt ≤ nowMsec)
    (hnow : nowMsec < 2 ^ 63) :
    Walking nowMsec timers (visited ++ [t]) (es ++ [.fire t]) (s.setExpire t (-1)) := by
  obtain ⟨seg, hseg, hfires, hvisited⟩ := h.seg
  have hdl : deadline es t = s.expire t := by
    rw [h.tracks t, LibslirpData.deadline, if_pos (by rw [h.timers_eq]; exact ht)]
  rw [← hdl] at harmed hdue
  obtain ⟨c, hc⟩ := latest_of_deadline harmed
  have hfires' : FiresDue es (.fire t) :=
    ⟨nowMsec, seg, c, _, hseg, fun hf => hnew (hfires t hf), hc, harmed, hdue⟩
  refine ⟨h.lawful.snoc ⟨hfires', trivial⟩,
    h.tracks.setExpire (by rw [h.timers_eq]; exact ht) (fun _ => rfl) rfl, h.timers_eq, ?_, ?_⟩
  · intro u hu
    by_cases htu : u = t
    · subst htu
      have : (-1 : Int64).toInt = -1 := by decide
      simp only [LibslirpData.setExpire, Function.update_self, this]
      omega
    · simpa [LibslirpData.setExpire, htu] using h.range u hu
  · refine ⟨seg ++ [.fire t], hseg.snoc (by simp), fun u hu => ?_, fun u hu h₁ h₂ => ?_⟩
    · rcases List.mem_append.1 hu with hu | hu
      · exact List.mem_append_left _ (hfires u hu)
      · have : u = t := by simpa using hu
        rw [this]; simp
    · by_cases htu : t = u
      · subst htu
        rw [deadline_snoc_pos (by simp [CbEvent.about])] at h₁
        exact absurd rfl h₁
      · have hno : ¬ (CbEvent.fire t).about u = true := by simpa [CbEvent.about] using htu
        rw [deadline_snoc_neg hno] at h₁ h₂ ⊢
        obtain ⟨v, hv, hl⟩ := hvisited u (by simpa [Ne.symm htu] using hu) h₁ h₂
        exact ⟨v, List.mem_append_left _ hv, by rw [latest_snoc_neg hno, hl]⟩

/-- A timer that is not due is passed over. -/
theorem Walking.skip (h : Walking nowMsec timers visited es s) {t : TimerId} (ht : t ∈ timers)
    (hnot : s.expire t = -1 ∨ nowMsec < (s.expire t).toInt) :
    Walking nowMsec timers (visited ++ [t]) es s := by
  obtain ⟨seg, hseg, hfires, hvisited⟩ := h.seg
  have hdl : deadline es t = s.expire t := by
    rw [h.tracks t, LibslirpData.deadline, if_pos (by rw [h.timers_eq]; exact ht)]
  refine ⟨h.lawful, h.tracks, h.timers_eq, h.range, seg, hseg,
    fun u hu => List.mem_append_left _ (hfires u hu), fun u hu h₁ h₂ => ?_⟩
  rcases List.mem_append.1 hu with hu | hu
  · exact hvisited u hu h₁ h₂
  · rw [List.mem_singleton.1 hu, hdl] at h₁ h₂
    rcases hnot with hnot | hnot
    · exact absurd hnot h₁
    · omega

/-- What the function of a timer may do in a pass. -/
def SlirpCb.Allowed (nowMsec : ℤ) (timers : List TimerId) (c : SlirpCb) : Prop :=
  c.Live timers ∧ c.KeepsList ∧ c.InRange nowMsec

theorem slirpCb_triple {t : TimerId} {c : SlirpCb} (hc : c.Allowed nowMsec timers) :
    Prog.Triple (fun es s => Walking nowMsec timers visited es s ∧ FiredInPass nowMsec t es)
      (c.exec (some t))
      (fun _ es s => Walking nowMsec timers visited es s ∧ FiredInPass nowMsec t es)
      (fun _ _ _ => False) := by
  obtain ⟨hlive, hkeeps, hrange⟩ := hc
  refine c.exec_triple (fun es s e he h => ⟨h.1.plain he, h.2.snoc he.no_mark⟩) ?_ ?_ ?_
  · rintro rfl; exact hkeeps.elim
  · rintro u rfl; exact hkeeps.elim
  · rintro u d rfl
    refine .update_bind (.call ?_)
    rintro es _ ⟨s, ⟨hw, hf⟩, rfl⟩
    exact ⟨hw.mod hf hlive hrange, hf.snoc (by simp)⟩

theorem slirpCbs_triple {t : TimerId} {cbs : List SlirpCb}
    (hcbs : ∀ c ∈ cbs, c.Allowed nowMsec timers) :
    Prog.Triple (fun es s => Walking nowMsec timers visited es s ∧ FiredInPass nowMsec t es)
      (slirpCbs (some t) cbs) (fun _ es s => Walking nowMsec timers visited es s)
      (fun _ _ _ => False) := by
  induction cbs with
  | nil => exact .pure fun es s h => h.1
  | cons c cbs ih =>
    exact .bind (slirpCb_triple (hcbs c (by simp))) fun _ =>
      ih fun c' hc' => hcbs c' (List.mem_cons_of_mem _ hc')

/-- **One timer of a pass.** -/
theorem checkTimer_triple {cb : TimerCbs} {t : TimerId} (ht : t ∈ timers) (hnew : t ∉ visited)
    (hcb : ∀ c ∈ cb t, c.Allowed nowMsec timers)
    (hnow : 0 ≤ nowMsec ∧ nowMsec < 2 ^ 63) :
    Prog.Triple (Walking nowMsec timers visited) (checkTimer cb nowMsec t)
      (fun _ => Walking nowMsec timers (visited ++ [t])) (fun _ _ _ => False) := by
  refine .state_bind fun s₀ => .ite (fun harmed => ?_) fun hidle => ?_
  · refine .ite (fun hover => ?_) fun _ => .ite (fun hdue => ?_) fun hlater => ?_
    · -- the deadline is in range, so that the difference does not overflow
      refine .stop ?_
      rintro es s ⟨hw, rfl⟩
      have h₁ := hw.range t ht
      have h₂ := (s.expire t).toInt_lt
      exact hover ⟨by omega, by omega⟩
    · refine .update_bind (.bind (Q := fun _ es s =>
        Walking nowMsec timers (visited ++ [t]) es s ∧ FiredInPass nowMsec t es) (.call ?_)
        fun _ => slirpCbs_triple hcb)
      rintro es _ ⟨s, ⟨hw, rfl⟩, rfl⟩
      obtain ⟨seg, hseg, -⟩ := hw.seg
      exact ⟨hw.fire ht hnew harmed (by omega) hnow.2, _, hseg.snoc (by simp), by simp⟩
    · refine .pure ?_
      rintro es s ⟨hw, rfl⟩
      exact hw.skip ht (Or.inr (by omega))
  · refine .pure ?_
    rintro es s ⟨hw, rfl⟩
    exact hw.skip ht (Or.inl (not_not.1 hidle))

/-- **The walk over the timers that are left.** -/
theorem checkTimers_triple {cb : TimerCbs} {rest : List TimerId} (hsplit : timers = visited ++ rest)
    (hnodup : timers.Nodup)
    (hcb : ∀ t ∈ timers, ∀ c ∈ cb t, c.Allowed nowMsec timers)
    (hnow : 0 ≤ nowMsec ∧ nowMsec < 2 ^ 63) :
    Prog.Triple (Walking nowMsec timers visited) (checkTimers cb nowMsec rest)
      (fun _ => Walking nowMsec timers timers) (fun _ _ _ => False) := by
  induction rest generalizing visited with
  | nil =>
    rw [List.append_nil] at hsplit
    exact .pure fun es s h => hsplit ▸ h
  | cons t rest ih =>
    have ht : t ∈ timers := by simp [hsplit]
    have hnew : t ∉ visited := by
      rw [hsplit, List.nodup_append] at hnodup
      exact fun hv => hnodup.2.2 t hv t (by simp) rfl
    exact .bind (checkTimer_triple ht hnew (hcb t ht) hnow) fun _ => ih (by simp [hsplit])

end

theorem LibslirpData.nowMsec_range (s : LibslirpData) : 0 ≤ s.nowMsec ∧ s.nowMsec < 2 ^ 63 := by
  have h₁ := s.clock_nonneg
  have h₂ := s.clockNs.toInt_lt
  unfold LibslirpData.nowMsec
  omega

/-- What holds between passes. -/
structure Idle (es : List CbEvent) (s : LibslirpData) : Prop where
  lawful : Always Lawful es
  tracks : Tracks es s

theorem Idle.plain {es : List CbEvent} {s : LibslirpData} (h : Idle es s) {e : CbEvent}
    (he : e.Plain) : Idle (es ++ [e]) s := ⟨h.lawful.snoc (he.lawful es), h.tracks.mark he.about⟩

/-- **A whole pass.** -/
theorem checkRaTimeout_triple {cb : TimerCbs} {s₀ : LibslirpData}
    (hrange : ∀ t ∈ s₀.timers, s₀.nowMsec - 2 ^ 63 ≤ (s₀.expire t).toInt)
    (hcb : ∀ t ∈ s₀.timers, ∀ c ∈ cb t, c.Allowed s₀.nowMsec s₀.timers) :
    Prog.Triple (fun es s => Idle es s ∧ s = s₀) (checkRaTimeout cb) (fun _ => Idle)
      (fun _ _ _ => False) := by
  have hclock : Prog.Triple (fun es s => Idle es s ∧ s = s₀) libslirpClockGetNs
      (fun ns es s => Idle es s ∧ s = s₀ ∧ ns = s₀.clockNs.toInt) (fun _ _ _ => False) := by
    refine .bind (Q := fun _ es s => Idle es s ∧ s = s₀) (.call ?_) fun _ => .state_bind fun s₁ =>
      .pure ?_
    · exact fun es s h => ⟨h.1.plain trivial, h.2⟩
    · rintro es s ⟨⟨h, rfl⟩, rfl⟩
      exact ⟨h, rfl, rfl⟩
  refine .bind hclock fun ns => ?_
  by_cases hns : ns = s₀.clockNs.toInt
  · subst hns
    refine .bind (Q := fun _ es s => Walking s₀.nowMsec s₀.timers [] es s ∧ s = s₀) (.call ?_)
      fun _ => .state_bind fun s₁ => ?_
    · rintro es s ⟨hidle, rfl, -⟩
      exact ⟨⟨hidle.lawful.snoc ⟨trivial, trivial⟩, hidle.tracks.mark fun _ => rfl, rfl, hrange, [],
        ⟨es, rfl, by simp⟩, by simp, by simp⟩, rfl⟩
    · by_cases hs : s₁ = s₀
      · subst hs
        have hsplit : s₁.timers = [] ++ s₁.timers := rfl
        refine .bind ((checkTimers_triple hsplit s₁.nodup hcb s₁.nowMsec_range).conseq
          (fun _ _ h => h.1.1) fun _ _ _ h => h) fun _ => .call ?_
        intro es s hw
        obtain ⟨seg, hseg, -, hvisited⟩ := hw.seg
        refine ⟨hw.lawful.snoc ⟨trivial, seg, hseg, fun t h₁ h₂ => hvisited t ?_ h₁ h₂⟩,
          hw.tracks.mark fun _ => rfl⟩
        -- a timer that is armed is in the list
        by_contra ht
        rw [hw.tracks t, LibslirpData.deadline, if_neg (by rw [hw.timers_eq]; exact ht)] at h₁
        exact h₁ rfl
      · rintro es s ⟨⟨-, rfl⟩, rfl⟩
        exact absurd rfl hs
  · rintro es s ⟨-, rfl, hns'⟩
    exact absurd hns' hns

/-! ### The functions that are called -/

section
variable {cb cb' : TimerCbs} {nowMsec : ℤ}

theorem checkTimer_congr {t : TimerId} {s : LibslirpData}
    (h : .fire t ∈ ((checkTimer cb nowMsec t).run s).calls → cb' t = cb t) :
    (checkTimer cb' nowMsec t).run s = (checkTimer cb nowMsec t).run s := by
  have hfire : ∀ (cb : TimerCbs) s, ((timerCb cb t).run s).calls =
      .fire t :: ((slirpCbs (some t) (cb t)).run s).calls := fun _ _ => by
    rw [timerCb, Prog.call_bind_run]
    rfl
  simp only [checkTimer, Prog.state_bind_run, Prog.ite_run, Prog.update_bind_run] at h ⊢
  split
  · split
    · rfl
    · split
      · next harmed hfits hdue =>
        simp only [if_pos harmed, if_neg hfits, if_pos hdue, hfire, List.mem_cons_self] at h
        rw [timerCb, timerCb, h trivial]
      · rfl
  · rfl

/-- A pass depends only on what the functions do that it calls. -/
theorem checkTimers_congr {timers : List TimerId} {s : LibslirpData}
    (h : ∀ t, .fire t ∈ ((checkTimers cb nowMsec timers).run s).calls → cb' t = cb t) :
    (checkTimers cb' nowMsec timers).run s = (checkTimers cb nowMsec timers).run s := by
  induction timers generalizing s with
  | nil => rfl
  | cons t timers ih =>
    have hfirst : (checkTimer cb' nowMsec t).run s = (checkTimer cb nowMsec t).run s :=
      checkTimer_congr fun hmem => h t (Prog.mem_bind_left hmem _)
    rw [checkTimers, checkTimers, Prog.bind_run, Prog.bind_run, hfirst]
    rw [checkTimers, Prog.bind_run] at h
    rcases hr : (checkTimer cb nowMsec t).run s with ⟨_ | why, s', es⟩
    · rw [hr] at h
      rw [Prog.andThen_ret, Prog.andThen_ret, ih fun u hu => h u (List.mem_append_right _ hu)]
    · rfl

theorem checkRaTimeout_run (cb : TimerCbs) (s : LibslirpData) : (checkRaTimeout cb).run s =
    ((checkTimers cb s.nowMsec s.timers >>= fun _ => Prog.call (.done s.nowMsec)).run s).after
      [.clockGettime, .pass s.nowMsec] := rfl

theorem checkRaTimeout_congr {s : LibslirpData}
    (h : ∀ t, .fire t ∈ ((checkRaTimeout cb).run s).calls → cb' t = cb t) :
    (checkRaTimeout cb').run s = (checkRaTimeout cb).run s := by
  rw [checkRaTimeout_run] at h
  rw [checkRaTimeout_run, checkRaTimeout_run, Prog.bind_run, Prog.bind_run, checkTimers_congr]
  exact fun t ht => h t (List.mem_append_right _ (Prog.mem_bind_left ht _))

end

/-! ## Runs -/

/-- What libslirp and the loop do with the timers, and the passing of time. -/
inductive TimerOp where
  | call (c : SlirpCb)
  | advance (ns : Int64)
  | pass (cb : TimerCbs)

namespace TimerOp

/-- The code of an operation. -/
def exec : TimerOp → CbProg Unit
  | call c => c.exec none
  | advance ns => Prog.update (LibslirpData.advance ns)
  | pass cb => checkRaTimeout cb

/-- Only live timers are set and freed, the clock does not go back, and the functions of the
    timers neither ask for timers nor free them. -/
def Valid (s : LibslirpData) : TimerOp → Prop
  | call c => c.Live s.timers
  | advance ns => s.clockNs ≤ ns
  | pass cb => ∀ t ∈ s.timers, ∀ c ∈ cb t, c.Live s.timers ∧ c.KeepsList

/-- The deadlines that a pass may meet, those of the timers and those that the functions it calls
    set, are not further in the past than `int64_t` can tell. -/
def InRange (s : LibslirpData) : TimerOp → Prop
  | pass cb => (∀ t ∈ s.timers, s.nowMsec - 2 ^ 63 ≤ (s.expire t).toInt) ∧
      ∀ t, .fire t ∈ ((checkRaTimeout cb).run s).calls → ∀ c ∈ cb t, c.InRange s.nowMsec
  | _ => True

end TimerOp

/-- An operation, how it ended and its events. -/
structure TimerRan where
  op : TimerOp
  out : Outcome Stop Unit
  events : List CbEvent

/-- One operation. -/
def TimerStep (s : LibslirpData) (ran : TimerRan) (s' : LibslirpData) : Prop :=
  ran.op.Valid s ∧ ran.op.exec.run s = ⟨ran.out, s', ran.events⟩

/-- A callback that libslirp calls between passes.  The list changes only in the callback that is
    told which timer is live. -/
theorem SlirpCb.idle_triple (c : SlirpCb) :
    Prog.Triple (fun es s => Idle es s ∧ c.Live s.timers) (c.exec none) (fun _ => Idle)
      (fun _ _ _ => False) := by
  have hidle (hc : ∀ timers, c.Live timers) (hnew : c ≠ .timerNew) :
      Prog.Triple Idle (c.exec none) (fun _ => Idle) (fun _ _ _ => False) := by
    refine c.exec_triple (fun es s e he h => h.plain he) (fun h => absurd h hnew) ?_ ?_
    · rintro t rfl; exact absurd (hc []) List.not_mem_nil
    · rintro t d rfl; exact absurd (hc []) List.not_mem_nil
  cases c with
  | timerNew =>
    refine .bind (Q := fun _ => Idle) (.state_bind fun s₁ => .update_bind ?_)
      fun _ => .pure fun _ _ h => h
    refine .bind (Q := fun _ => Idle) (.call ?_) fun _ => .pure fun _ _ h => h
    rintro es _ ⟨s, ⟨⟨h, -⟩, rfl⟩, rfl⟩
    exact ⟨h.lawful.snoc ⟨trivial, trivial⟩, h.tracks.append⟩
  | timerFree t =>
    refine .update_bind (.call ?_)
    rintro es _ ⟨s, ⟨h, -⟩, rfl⟩
    exact ⟨h.lawful.snoc ⟨trivial, trivial⟩, h.tracks.remove t⟩
  | timerMod t d =>
    refine .update_bind (.call ?_)
    rintro es _ ⟨s, ⟨h, hlive⟩, rfl⟩
    exact ⟨h.lawful.snoc ⟨trivial, trivial⟩, h.tracks.setExpire hlive (fun _ => rfl) rfl⟩
  | _ => exact (hidle (fun _ => trivial) nofun).conseq (fun _ _ h => h.1) fun _ _ _ h => h

/-- **What one operation keeps.** -/
theorem TimerOp.exec_triple {op : TimerOp} {s₀ : LibslirpData} (hvalid : op.Valid s₀)
    (hrange : op.InRange s₀) :
    Prog.Triple (fun es s => Idle es s ∧ s = s₀) op.exec (fun _ => Idle) (fun _ _ _ => False) := by
  cases op with
  | call c => exact c.idle_triple.conseq (fun _ _ h => ⟨h.1, h.2 ▸ hvalid⟩) fun _ _ _ h => h
  | advance ns =>
    refine .update ?_
    rintro es s ⟨h, rfl⟩
    refine ⟨h.lawful, ?_⟩
    unfold LibslirpData.advance
    split
    exacts [h.tracks, h.tracks]
  | pass cb =>
    -- what the functions would do that are not called does not matter
    let cb' : TimerCbs := fun t =>
      if .fire t ∈ ((checkRaTimeout cb).run s₀).calls then cb t else []
    have hsame : (checkRaTimeout cb').run s₀ = (checkRaTimeout cb).run s₀ :=
      checkRaTimeout_congr fun t ht => if_pos ht
    have htriple := @checkRaTimeout_triple cb' s₀ hrange.1 fun t ht c hc => by
      by_cases hfire : .fire t ∈ ((checkRaTimeout cb).run s₀).calls
      · rw [show cb' t = cb t from if_pos hfire] at hc
        obtain ⟨hlive, hkeeps⟩ := hvalid t ht c hc
        exact ⟨hlive, hkeeps, hrange.2 t hfire c hc⟩
      · rw [show cb' t = [] from if_neg hfire] at hc
        exact absurd hc List.not_mem_nil
    rintro es s ⟨hidle, rfl⟩
    have hrun := htriple es s ⟨hidle, rfl⟩
    rwa [hsame] at hrun

/-- **The timers of every run.**  In every run of the operations, in any order, in which no pass
    meets a deadline too far in the past, every pass returns; a callback is called only in a pass at
    or after its deadline, once in it, and once for each time its timer was armed; when a pass
    returns, no timer is due unless a callback of that pass armed it; and the trace tells the
    deadlines of the live timers. -/
theorem timers_fire_when_due {rans : List TimerRan} {s : LibslirpData}
    (hrun : Run (fun s ran s' => TimerStep s ran s' ∧ ran.op.InRange s) LibslirpData.init rans s) :
    let es := rans.flatMap TimerRan.events
    (∀ ran ∈ rans, ran.out = .ret ()) ∧ Always FiresDue es ∧ Always LeavesNoneDue es ∧
      ∀ t, deadline es t = s.deadline t := by
  have hidle : (∀ ran ∈ rans, ran.out = .ret ()) ∧ Idle (rans.flatMap TimerRan.events) s := by
    refine Run.history hrun (I := fun rans s => (∀ ran ∈ rans, ran.out = .ret ()) ∧
      Idle (rans.flatMap TimerRan.events) s) ⟨by simp, Always.nil, fun t => rfl⟩ ?_
    rintro rans s ran s' ⟨hret, hidle⟩ ⟨⟨hvalid, hexec⟩, hrange⟩
    have htriple := TimerOp.exec_triple hvalid hrange _ _ ⟨hidle, rfl⟩
    rw [hexec] at htriple
    rcases hout : ran.out with _ | why
    · rw [hout] at htriple
      refine ⟨fun r hr => ?_, by simpa using htriple⟩
      rcases List.mem_append.1 hr with hr | hr
      · exact hret r hr
      · rw [List.mem_singleton.1 hr, hout]
    · rw [hout] at htriple
      exact htriple.elim
  intro es
  exact ⟨hidle.1, fun a e b h => (hidle.2.lawful a e b h).1,
    fun a e b h => (hidle.2.lawful a e b h).2, hidle.2.tracks⟩

theorem TimerStep.of_valid (op : TimerOp) {s : LibslirpData} (h : op.Valid s) :
    TimerStep s ⟨op, (op.exec.run s).out, (op.exec.run s).calls⟩ (op.exec.run s).st := ⟨h, rfl⟩

/-- A timer that sets itself again, to a time that is already over, is called once in the pass and
    stays armed. -/
theorem timers_fire_sample :
    let s₁ := ((TimerOp.call .timerNew).exec.run .init).st
    let s₂ := ((TimerOp.call (.timerMod 0 5)).exec.run s₁).st
    let s₃ := ((TimerOp.advance 10000000).exec.run s₂).st
    let ran := (TimerOp.pass fun _ => [.timerMod 0 3]).exec.run s₃
    ran.calls = [.clockGettime, .pass 10, .fire 0, .mod (some 0) 0 3, .done 10] ∧
      ran.st.deadline 0 = 3 ∧
      Always FiresDue [.new 0, .mod none 0 5, .clockGettime, .pass 10, .fire 0, .mod (some 0) 0 3,
        .done 10] := by
  intro s₁ s₂ s₃ ran
  let cb : TimerCbs := fun _ => [.timerMod 0 3]
  have hadvance : s₂.clockNs ≤ 10000000 := by decide
  have hlive : s₃.timers = [0] := by decide
  have hnow : s₃.nowMsec = 10 := by decide
  have hvalid : (TimerOp.pass cb).Valid s₃ := by
    intro t _ c hc
    rw [List.mem_singleton.1 hc, hlive]
    exact ⟨List.mem_singleton_self _, trivial⟩
  have hrange : (TimerOp.pass cb).InRange s₃ := by
    refine ⟨fun t ht => ?_, fun t _ c hc => ?_⟩
    · rw [hlive, List.mem_singleton] at ht
      subst ht
      decide
    · rw [List.mem_singleton.1 hc, hnow]
      show (10 : ℤ) - 2 ^ 63 ≤ (3 : Int64).toInt
      decide
  have h₁ := TimerStep.of_valid (.call .timerNew) (s := .init) trivial
  have h₂ := TimerStep.of_valid (.call (.timerMod 0 5)) (s := s₁) (List.mem_singleton_self _)
  have h₃ := TimerStep.of_valid (.advance 10000000) (s := s₂) hadvance
  have h₄ := TimerStep.of_valid (.pass cb) (s := s₃) hvalid
  obtain ⟨-, hfires, -⟩ := timers_fire_when_due (.snoc (.snoc (.snoc (.snoc .nil ⟨h₁, trivial⟩)
    ⟨h₂, trivial⟩) ⟨h₃, trivial⟩) ⟨h₄, hrange⟩)
  rw [show List.flatMap TimerRan.events _ = [.new 0, .mod none 0 5, .clockGettime, .pass 10,
    .fire 0, .mod (some 0) 0 3, .done 10] by decide] at hfires
  exact ⟨by decide, by decide, hfires⟩

/-- The difference to a deadline at the lower end of `int64_t` overflows: the pass does not get to
    the function of a timer that is due. -/
theorem timer_overflow :
    let s₁ := ((TimerOp.call .timerNew).exec.run .init).st
    let s₂ := ((TimerOp.call (.timerMod 0 Int64.minValue)).exec.run s₁).st
    let s₃ := ((TimerOp.advance 1000000).exec.run s₂).st
    let ran := (TimerOp.pass fun _ => []).exec.run s₃
    (∃ rans, Run TimerStep LibslirpData.init rans ran.st) ∧ ran.out = .stop .signedOverflow ∧
      ran.calls = [.clockGettime, .pass 1] ∧ s₃.deadline 0 = Int64.minValue ∧
      (s₃.deadline 0).toInt ≤ 1 ∧ s₃.deadline 0 ≠ -1 := by
  intro s₁ s₂ s₃ ran
  have hadvance : s₂.clockNs ≤ 1000000 := by decide
  have h₁ := TimerStep.of_valid (.call .timerNew) (s := .init) trivial
  have h₂ := TimerStep.of_valid (.call (.timerMod 0 Int64.minValue)) (s := s₁)
    (List.mem_singleton_self _)
  have h₃ := TimerStep.of_valid (.advance 1000000) (s := s₂) hadvance
  have h₄ := TimerStep.of_valid (.pass fun _ => []) (s := s₃) fun t _ c hc =>
    absurd hc List.not_mem_nil
  exact ⟨⟨_, .snoc (.snoc (.snoc (.snoc .nil h₁) h₂) h₃) h₄⟩, by decide⟩

end Slirp4netns
