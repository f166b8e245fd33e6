/-
  slirp4netns formalization — the poll array of `do_slirp`.

  The array is cut back to a fixed prefix in each turn of the loop and filled
  again by libslirp.  `PollInv` is the invariant at the head of the loop: the
  array starts with the prefix `fixedFds`, and the indices of the exit and API
  descriptors point into it.  `PollLaw` says what one turn does: the indices that
  libslirp gets, the array that `g_poll` gets, and the events that libslirp is
  told for an index.

  `AtHead` are the states in which a turn can begin; `poll_array` says that the
  law holds for every turn from them, and that the loop makes no other ones.
-/
import Slirp4netns.DoSlirp

namespace Slirp4netns

variable {L : Libslirp}

/-! ## Event masks -/

/-- Masks of the five events. -/
def FiveEvents (events : BitVec 32) : Prop := events.toNat < 32

theorem fiveEvents_induction {P : BitVec 32 → Prop} (h : ∀ n < 32, P (BitVec.ofNat 32 n))
    {events : BitVec 32} (he : FiveEvents events) : P events := by
  have := h events.toNat he
  rwa [BitVec.ofNat_toNat, BitVec.setWidth_eq] at this

theorem gioToPoll_pollToGio {events : BitVec 32} (h : FiveEvents events) :
    libslirpGioToPoll (libslirpPollToGio events) = events := by
  apply fiveEvents_induction (P := fun e => libslirpGioToPoll (libslirpPollToGio e) = e) _ h
  decide +kernel

theorem pollToGio_gioToPoll {events : BitVec 32} (h : FiveEvents events) :
    libslirpPollToGio (libslirpGioToPoll events) = events := by
  apply fiveEvents_induction (P := fun e => libslirpPollToGio (libslirpGioToPoll e) = e) _ h
  decide +kernel

/-! ## The array and its indices -/

/-- The part of the state that belongs to the poll array. -/
structure Polls where
  pollfds : List GPollFD
  nFds : ℕ
  exitIdx : ℤ
  apiIdx : ℤ

/-- This part of a state. -/
def SlirpState.polls (s : SlirpState L) : Polls :=
  ⟨s.pollfds, s.nFds, s.pollfdsExitfdIdx, s.pollfdsApifdIdx⟩

/-- What `g_poll` is asked for in an entry. -/
def GPollFD.asked (pfd : GPollFD) : ℤ × BitVec 16 := (pfd.fd, pfd.events)

/-- The fixed descriptors, with the events they are polled for. -/
def fixedFds (args : Args) (env : Startup) : List (ℤ × BitVec 16) :=
  [(args.tapfd, (gIoIn ||| gIoHup).setWidth 16)] ++
    (if args.exitfd ≥ 0 then [(args.exitfd, gIoHup.setWidth 16)] else []) ++
    (if args.apiSocket.isSome then [(env.apiBindlisten, (gIoIn ||| gIoHup).setWidth 16)] else [])

/-- The entry for a registration of libslirp. -/
def registered (r : ℤ × BitVec 32) : GPollFD := ⟨r.1, (libslirpPollToGio r.2).setWidth 16, 0⟩

/-- The invariant at the head of the loop. -/
structure PollInv (args : Args) (env : Startup) (v : Polls) : Prop where
  nFds : v.nFds = (fixedFds args env).length
  fixed : (v.pollfds.take v.nFds).map GPollFD.asked = fixedFds args env
  exitIdx : v.exitIdx = if args.exitfd ≥ 0 then 1 else -1
  apiIdx : v.apiIdx = if args.apiSocket.isSome then (v.nFds : ℤ) - 1 else -1

/-! ## Acts on the array -/

/-- An act on the array. -/
def Act.OfPoll : Act → Bool
  | addPoll .. => true
  | gPoll .. => true
  | getRevents .. => true
  | _ => false

/-- A registration, and its index. -/
def Act.addPoll? : Act → Option ((ℤ × BitVec 32) × ℕ)
  | addPoll fd events idx => some ((fd, events), idx)
  | _ => none

/-- The acts on the array. -/
def pollActs (es : List Act) : List Act := es.filter Act.OfPoll

theorem pollActs_append (es fs : List Act) : pollActs (es ++ fs) = pollActs es ++ pollActs fs :=
  List.filter_append es fs

/-- A condition on the acts on the array and the array. -/
def On (I : List Act → Polls → Prop) (es : List Act) (s : SlirpState L) : Prop :=
  I (pollActs es) s.polls

/-- The law for the acts of one turn. -/
structure PollLaw (args : Args) (env : Startup) (tick : Tick) (acts : List Act) : Prop where
  added : acts.filterMap Act.addPoll? = tick.fill.zipIdx (fixedFds args env).length
  polled : ∀ fds timeout rc, .gPoll fds timeout rc ∈ acts →
    fds = fixedFds args env ++ tick.fill.map fun r => (registered r).asked
  revents : ∀ idx revents, .getRevents idx revents ∈ acts → ∃ count reported,
    tick.poll.result = some (.ready count reported) ∧
    revents = libslirpGioToPoll ((reported.getD idx 0).setWidth 32)

/-! ## Code that leaves the array alone -/

/-- Code without acts on the array, which keeps it as it is. -/
abbrev Apart {α : Type} (p : SlirpProg L α) : Prop :=
  Prog.Keeps SlirpState.polls (fun e => e.OfPoll = false) p

theorem onData_apart {α : Type} (p : CbProg α) : Apart (onData p : SlirpProg L α) :=
  onData_keeps (fun _ _ => rfl) (fun _ => rfl) p

theorem onApi_apart {α : Type} (ctx : ApiCtx) (p : Api L α) : Apart (onApi ctx p) :=
  .lift (fun _ _ => rfl) fun _ _ _ => rfl

theorem eprintf_apart (text : Bytes) : Apart (eprintf text : SlirpProg L Unit) := .call rfl

/-- A condition on the acts and the array is kept. -/
theorem Apart.triple {α : Type} {p : SlirpProg L α} (h : Apart p) (I : List Act → Polls → Prop) :
    Prog.Triple (On I) p (fun _ => On I) fun _ => On I := by
  intro es s hI
  have hsilent : pollActs (p.run s).calls = [] :=
    List.filter_eq_nil_iff.2 fun e he => by rw [h.calls s e he]; decide
  have hend : On I (es ++ (p.run s).calls) (p.run s).st := by
    rw [On, pollActs_append, hsilent, List.append_nil, h.same]
    exact hI
  split <;> exact hend

/-! ## Filling the array -/

theorem libslirpAddPoll_triple {acts : List Act} {v : Polls} (fd : ℤ) (events : BitVec 32)
    {E : End → List Act → SlirpState L → Prop} :
    Prog.Triple (On fun a w => a = acts ∧ w = v) (libslirpAddPoll (L := L) fd events)
      (fun idx es s => idx = v.pollfds.length ∧
        On (fun a w => a = acts ++ [.addPoll fd events v.pollfds.length] ∧
          w = { v with pollfds := v.pollfds ++ [registered (fd, events)] }) es s) E := by
  rintro es s ⟨hacts, rfl⟩
  show _ ∧ On _ (es ++ [Act.addPoll fd events s.pollfds.length]) _
  refine ⟨rfl, ?_, rfl⟩
  rw [pollActs_append, hacts]
  rfl

theorem On.call {I : List Act → Polls → Prop} {e : Act} {E : End → List Act → SlirpState L → Prop}
    (h : e.OfPoll = false) :
    Prog.Triple (On I) (Prog.call e : SlirpProg L Unit) (fun _ => On I) E := by
  refine .call fun es s hI => ?_
  have hsilent : pollActs [e] = [] := by simp [pollActs, h]
  rw [On, pollActs_append, hsilent, List.append_nil]
  exact hI

theorem On.call_and {I : List Act → Polls → Prop} {e : Act} {s₀ : SlirpState L}
    {E : End → List Act → SlirpState L → Prop} (h : e.OfPoll = false) :
    Prog.Triple (fun es s => On I es s ∧ s = s₀) (Prog.call e : SlirpProg L Unit)
      (fun _ es s => On I es s ∧ s = s₀) E := by
  refine .call ?_
  rintro es s ⟨hI, rfl⟩
  exact ⟨On.call (E := E) h es s hI, rfl⟩

/-- `slirp_pollfds_fill` appends its registrations and gets their positions. -/
theorem addPolls_triple {acts : List Act} {v : Polls} (fill : List (ℤ × BitVec 32))
    {E : End → List Act → SlirpState L → Prop} :
    Prog.Triple (On fun a w => a = acts ∧ w = v) (addPolls (L := L) fill)
      (fun idxs => On fun a w => idxs = List.range' v.pollfds.length fill.length ∧
        a = acts ++ (fill.zipIdx v.pollfds.length).map (fun r => .addPoll r.1.1 r.1.2 r.2) ∧
        w = { v with pollfds := v.pollfds ++ fill.map registered }) E := by
  induction fill generalizing acts v with
  | nil => exact .pure fun es s h => by simpa [On] using h
  | cons r fill ih =>
    obtain ⟨fd, events⟩ := r
    refine .bind (libslirpAddPoll_triple fd events) fun idx => .fact ?_
    rintro rfl
    refine .bind ih fun idxs => .pure ?_
    rintro es s ⟨hidxs, hacts, hpolls⟩
    refine ⟨?_, by rw [hacts]; simp, by rw [hpolls]; simp⟩
    rw [hidxs, List.length_append, List.length_singleton, List.length_cons, List.range'_succ]

section
variable {args : Args} {env : Startup} {tick : Tick} {acts : List Act} {v : Polls}

theorem PollLaw.filled : PollLaw args env tick
    ((tick.fill.zipIdx (fixedFds args env).length).map fun r => .addPoll r.1.1 r.1.2 r.2) where
  added := by
    rw [List.filterMap_map]
    exact List.filterMap_some
  polled fds timeout rc h := by simp at h
  revents idx revents h := by simp at h

theorem PollLaw.snoc_gPoll {fds : List (ℤ × BitVec 16)} (h : PollLaw args env tick acts)
    (hfds : fds = fixedFds args env ++ tick.fill.map fun r => (registered r).asked)
    (timeout : UInt32) (rc : ℤ) : PollLaw args env tick (acts ++ [.gPoll fds timeout rc]) where
  added := by
    rw [List.filterMap_append, h.added]
    exact List.append_nil _
  polled fds' timeout' rc' hmem := by
    rcases List.mem_append.1 hmem with hmem | hmem
    · exact h.polled fds' timeout' rc' hmem
    · cases List.mem_singleton.1 hmem
      exact hfds
  revents idx revents hmem := by
    rcases List.mem_append.1 hmem with hmem | hmem
    · exact h.revents idx revents hmem
    · cases List.mem_singleton.1 hmem

theorem PollLaw.snoc_getRevents {count : ℕ} {reported : List (BitVec 16)}
    (h : PollLaw args env tick acts) (hpoll : tick.poll.result = some (.ready count reported))
    (idx : ℕ) : PollLaw args env tick
      (acts ++ [.getRevents idx (libslirpGioToPoll ((reported.getD idx 0).setWidth 32))]) where
  added := by
    rw [List.filterMap_append, h.added]
    exact List.append_nil _
  polled fds timeout rc hmem := by
    rcases List.mem_append.1 hmem with hmem | hmem
    · exact h.polled fds timeout rc hmem
    · cases List.mem_singleton.1 hmem
  revents idx' revents hmem := by
    rcases List.mem_append.1 hmem with hmem | hmem
    · exact h.revents idx' revents hmem
    · cases List.mem_singleton.1 hmem
      exact ⟨count, reported, hpoll, rfl⟩

/-- The array that `g_poll` gets. -/
def Polls.filled (v : Polls) (tick : Tick) : Polls :=
  { v with pollfds := v.pollfds.take v.nFds ++ tick.fill.map registered }

theorem PollInv.le_length (h : PollInv args env v) : v.nFds ≤ v.pollfds.length := by
  have hlen := congrArg List.length h.fixed
  rw [List.length_map, List.length_take, ← h.nFds] at hlen
  omega

theorem PollInv.asked_filled (h : PollInv args env v) : (v.filled tick).pollfds.map GPollFD.asked =
    fixedFds args env ++ tick.fill.map fun r => (registered r).asked := by
  rw [Polls.filled, List.map_append, h.fixed, List.map_map]
  rfl

/-- Up to `g_poll`. -/
theorem pollFds_triple (hv : PollInv args env v) :
    Prog.Triple (On fun a w => a = [] ∧ w = v) (pollFds (L := L) tick)
      (fun r => On fun a w => tick.poll.result = some r.1 ∧
        r.2 = List.range' (fixedFds args env).length tick.fill.length ∧
        PollLaw args env tick a ∧ w = v.filled tick)
      fun _ => On fun a _ => PollLaw args env tick a := by
  have hlen : (v.pollfds.take v.nFds).length = (fixedFds args env).length := by
    rw [List.length_take, ← hv.nFds]
    exact Nat.min_eq_left hv.le_length
  have hcut : Prog.Triple (On fun a w => a = [] ∧ w = v)
      (Prog.update fun s => s.setSize s.nFds : SlirpProg L Unit)
      (fun _ => On fun a w => a = [] ∧ w = { v with pollfds := v.pollfds.take v.nFds })
      fun _ => On fun a _ => PollLaw args env tick a := by
    refine .update ?_
    rintro es s ⟨hacts, rfl⟩
    refine ⟨hacts, ?_⟩
    have hle : s.nFds ≤ s.pollfds.length := hv.le_length
    simp [SlirpState.polls, SlirpState.setSize, Nat.sub_eq_zero_of_le hle]
  have hfill : Prog.Triple (On fun a w => a = [] ∧ w = { v with pollfds := v.pollfds.take v.nFds })
      (addPolls (L := L) tick.fill)
      (fun idxs es s => idxs = List.range' (fixedFds args env).length tick.fill.length ∧
        On (fun a w => PollLaw args env tick a ∧ w = v.filled tick) es s)
      fun _ => On fun a _ => PollLaw args env tick a := by
    refine (addPolls_triple tick.fill).conseq (fun _ _ h => h) ?_
    rintro idxs es s ⟨hidxs, hacts, hpolls⟩
    rw [hlen] at hidxs hacts
    refine ⟨hidxs, ?_, hpolls⟩
    rw [hacts, List.nil_append]
    exact .filled
  have hdata : ∀ {α : Type} (p : CbProg α),
      Prog.Triple (On fun a w => PollLaw args env tick a ∧ w = v.filled tick)
        (onData p : SlirpProg L α)
        (fun _ => On fun a w => PollLaw args env tick a ∧ w = v.filled tick)
        fun _ => On fun a _ => PollLaw args env tick a := by
    intro α p
    refine ((onData_apart p).triple _).conseq_stop ?_
    rintro _ _ _ ⟨h, -⟩
    exact h
  refine .bind hcut fun _ => .bind (On.call rfl) fun _ => .bind hfill fun idxs => .fact fun hidxs =>
    .bind (hdata _) fun _ => .bind (hdata _) fun _ => .bind (hdata _) fun timeout => ?_
  refine .state_bind fun s₀ => .bind (Q := fun r => On fun a w => tick.poll.result = some r ∧
    PollLaw args env tick a ∧ w = v.filled tick) ?_ fun r => .pure ?_
  swap
  · rintro es s ⟨hr, hlaw, hpolls⟩
    exact ⟨hr, hidxs, hlaw, hpolls⟩
  have hgpoll : ∀ (rc : ℤ) (es : List Act) (s : SlirpState L),
      On (fun a w => PollLaw args env tick a ∧ w = v.filled tick) es s ∧ s = s₀ →
      On (fun a w => PollLaw args env tick a ∧ w = v.filled tick)
        (es ++ [.gPoll (s₀.pollfds.map fun pfd => (pfd.fd, pfd.events)) timeout rc]) s ∧
        s = s₀ := by
    rintro rc es s ⟨⟨hlaw, hpolls⟩, rfl⟩
    have hfds : s.pollfds.map (fun pfd => (pfd.fd, pfd.events)) =
        fixedFds args env ++ tick.fill.map fun r => (registered r).asked := by
      rw [← hv.asked_filled, ← hpolls]
      rfl
    refine ⟨⟨?_, hpolls⟩, rfl⟩
    rw [pollActs_append]
    exact hlaw.snoc_gPoll hfds timeout rc
  refine Prog.Triple.conseq_stop (Prog.Triple.conseq (retry_triple (hgpoll (-1)) fun r => ?_)
    (fun _ _ h => h) ?_) ?_
  · cases r <;> exact hgpoll _
  · rintro r es s ⟨hr, ⟨hlaw, hpolls⟩, -⟩
    exact ⟨hr, hlaw, hpolls⟩
  · rintro _ es s ⟨⟨hlaw, -⟩, -⟩
    exact hlaw

/-! ## The events -/

/-- The array after the kernel has written the events into it. -/
def Polls.reported (v : Polls) (revents : List (BitVec 16)) : Polls :=
  { v with pollfds := v.pollfds.mapIdx fun i pfd => { pfd with revents := revents.getD i 0 } }

theorem Polls.reported_revents {revents : List (BitVec 16)} {idx : ℕ} {pfd : GPollFD}
    (h : (v.reported revents).pollfds[idx]? = some pfd) : pfd.revents = revents.getD idx 0 := by
  rw [Polls.reported, List.getElem?_mapIdx, Option.map_eq_some_iff] at h
  obtain ⟨pfd', -, rfl⟩ := h
  rfl

/-- The exit descriptor has an event: it is the second of the array. -/
def ExitEvent (args : Args) (tick : Tick) : Prop :=
  0 ≤ args.exitfd ∧ ∃ count reported, tick.poll.result = some (.ready count reported) ∧
    reported.getD 1 0 ≠ 0

theorem PollInv.of_asked {pollfds : List GPollFD} {rest : List (ℤ × BitVec 16)}
    (h : PollInv args env v) (hasked : pollfds.map GPollFD.asked = fixedFds args env ++ rest) :
    PollInv args env { v with pollfds := pollfds } where
  nFds := h.nFds
  fixed := by
    show (pollfds.take v.nFds).map GPollFD.asked = _
    rw [List.map_take, hasked, h.nFds, List.take_left]
  exitIdx := h.exitIdx
  apiIdx := h.apiIdx

theorem PollInv.filled (h : PollInv args env v) : PollInv args env (v.filled tick) :=
  h.of_asked h.asked_filled

theorem PollInv.filled_reported (h : PollInv args env v) (revents : List (BitVec 16)) :
    PollInv args env ((v.filled tick).reported revents) := by
  have hasked : ((v.filled tick).reported revents).pollfds.map GPollFD.asked =
      (v.filled tick).pollfds.map GPollFD.asked := by
    ext i pfd
    simp [Polls.reported, GPollFD.asked]
  exact h.of_asked (hasked.trans h.asked_filled)

theorem PollInv.exitEvent {count : ℕ} {reported : List (BitVec 16)} {s : SlirpState L}
    (h : PollInv args env v) (hpoll : tick.poll.result = some (.ready count reported))
    (hs : s.polls = (v.filled tick).reported reported)
    (hevent : s.hasEvent s.pollfdsExitfdIdx = true) : ExitEvent args tick := by
  have hidx : s.pollfdsExitfdIdx = if args.exitfd ≥ 0 then 1 else -1 :=
    (congrArg Polls.exitIdx hs).trans h.exitIdx
  have hpollfds : s.pollfds = ((v.filled tick).reported reported).pollfds :=
    congrArg Polls.pollfds hs
  simp only [SlirpState.hasEvent, decide_eq_true_eq] at hevent
  obtain ⟨hge, pfd, hmem, hne⟩ := hevent
  by_cases hexit : args.exitfd ≥ 0
  · rw [hidx, if_pos hexit] at hmem
    rw [hpollfds] at hmem
    refine ⟨hexit, count, reported, hpoll, ?_⟩
    intro hzero
    exact hne ((Polls.reported_revents hmem).trans hzero)
  · rw [hidx, if_neg hexit] at hge
    omega

theorem libslirpGetRevents_run {s : SlirpState L} {idx : ℕ} {pfd : GPollFD}
    (h : s.pollfds[idx]? = some pfd) : (libslirpGetRevents idx).run s =
      ⟨.ret (libslirpGioToPoll (pfd.revents.setWidth 32)), s,
        [.getRevents idx (libslirpGioToPoll (pfd.revents.setWidth 32))]⟩ := by
  simp only [libslirpGetRevents, Prog.state_bind_run, h]
  rfl

/-- Where the entry for a registration is, with the events that the kernel reported for it. -/
theorem PollInv.registered_at (h : PollInv args env v) (reported : List (BitVec 16))
    {r : ℤ × BitVec 32} {idx : ℕ} (hr : (r, idx) ∈ tick.fill.zipIdx (fixedFds args env).length) :
    ((v.filled tick).reported reported).pollfds[idx]? =
      some { registered r with revents := reported.getD idx 0 } := by
  obtain ⟨hle, hget⟩ := List.mem_zipIdx_iff_le_and_getElem?_sub.1 hr
  have hlen : (v.pollfds.take v.nFds).length = (fixedFds args env).length := by
    rw [List.length_take, ← h.nFds]
    exact Nat.min_eq_left h.le_length
  rw [Polls.reported, List.getElem?_mapIdx, Polls.filled,
    List.getElem?_append_right (hlen.le.trans hle), hlen, List.getElem?_map, hget]
  rfl

theorem getAllRevents_triple {count : ℕ} {reported : List (BitVec 16)} (idxs : List ℕ)
    (hpoll : tick.poll.result = some (.ready count reported)) :
    Prog.Triple (On fun a w => PollLaw args env tick a ∧ w = v.reported reported)
      (getAllRevents (L := L) idxs)
      (fun _ => On fun a w => PollLaw args env tick a ∧ w = v.reported reported)
      fun _ => On fun a _ => PollLaw args env tick a := by
  induction idxs with
  | nil => exact .pure fun _ _ h => h
  | cons idx idxs ih =>
    refine .bind (.state_bind fun s₀ => ?_) fun _ => .bind ih fun _ => .pure fun _ _ h => h
    split
    · refine .stop ?_
      rintro es s ⟨⟨hlaw, -⟩, -⟩
      exact hlaw
    · next pfd hpfd =>
      refine .bind (.call ?_) fun _ => .pure fun _ _ h => h
      rintro es s ⟨⟨hlaw, hpolls⟩, rfl⟩
      have hrevents : pfd.revents = reported.getD idx 0 := by
        apply Polls.reported_revents
        rw [← hpolls]
        exact hpfd
      refine ⟨?_, hpolls⟩
      rw [pollActs_append, hrevents]
      exact hlaw.snoc_getRevents hpoll idx

theorem tapEvent_apart (tick : Tick) (pollout : ℤ) : Apart (tapEvent (L := L) tick pollout) :=
  tapEvent_keeps (fun _ _ => rfl) (fun _ _ => rfl) (fun _ => rfl) (fun _ => rfl) (fun _ => rfl)
    (fun _ => rfl) tick pollout

theorem apiEvent_apart (C : Libc) (tick : Tick) : Apart (apiEvent (L := L) C tick) := by
  refine .bind .state fun s => .when (.bind (eprintf_apart _) fun _ => ?_)
  split
  · exact .stop _
  · exact .bind (onApi_apart _ _) fun rc => .when (eprintf_apart _)

/-- From `g_poll` to `slirp_pollfds_poll`. -/
theorem dispatch_triple {C : Libc} {count : ℕ} {reported : List (BitVec 16)}
    (hv : PollInv args env v) (hpoll : tick.poll.result = some (.ready count reported)) :
    Prog.Triple (On fun a w => PollLaw args env tick a ∧ w = v.filled tick)
      (dispatch (L := L) C tick count reported)
      (fun r => On fun a w => (PollLaw args env tick a ∧ w = (v.filled tick).reported reported) ∧
        (r = none → ExitEvent args tick))
      fun _ => On fun a _ => PollLaw args env tick a := by
  have hstop : ∀ {α : Type} {p : SlirpProg L α}, Apart p →
      Prog.Triple (On fun a w => PollLaw args env tick a ∧ w = (v.filled tick).reported reported) p
        (fun _ => On fun a w => PollLaw args env tick a ∧ w = (v.filled tick).reported reported)
        fun _ => On fun a _ => PollLaw args env tick a := by
    intro α p hp
    refine (hp.triple _).conseq_stop ?_
    rintro _ _ _ ⟨h, -⟩
    exact h
  have hset : Prog.Triple (On fun a w => PollLaw args env tick a ∧ w = v.filled tick)
      (Prog.update fun s => s.setRevents reported : SlirpProg L Unit)
      (fun _ => On fun a w => PollLaw args env tick a ∧ w = (v.filled tick).reported reported)
      fun _ => On fun a _ => PollLaw args env tick a := by
    refine .update ?_
    rintro es s ⟨hlaw, hpolls⟩
    refine ⟨hlaw, ?_⟩
    rw [← hpolls]
    rfl
  refine .bind hset fun _ => .bind (hstop (tapEvent_apart tick count)) fun pollout => ?_
  refine .state_bind fun s₀ => .ite (fun hevent => ?_) fun hevent => ?_
  · refine .bind (On.call_and rfl) fun _ => .pure ?_
    rintro es s ⟨⟨hlaw, hpolls⟩, rfl⟩
    exact ⟨⟨hlaw, hpolls⟩, fun _ => hv.exitEvent hpoll hpolls hevent⟩
  · refine Prog.Triple.conseq (.bind (hstop (apiEvent_apart C tick)) fun _ => .pure ?_)
      (fun _ _ h => h.1) fun _ _ _ h => h
    exact fun es s h => ⟨h, by simp⟩

/-- A turn after `g_poll`. -/
theorem handleEvents_triple {C : Libc} {count : ℕ} {reported : List (BitVec 16)} {idxs : List ℕ}
    (hv : PollInv args env v) (hpoll : tick.poll.result = some (.ready count reported)) :
    Prog.Triple (On fun a w => PollLaw args env tick a ∧ w = v.filled tick)
      (handleEvents (L := L) C tick idxs count reported)
      (fun r => On fun a w => PollLaw args env tick a ∧ PollInv args env w ∧
        (∀ ret, r = some ret → 0 ≤ ret → ExitEvent args tick))
      fun _ => On fun a _ => PollLaw args env tick a := by
  have hdata : ∀ {α : Type} (p : CbProg α),
      Prog.Triple (On fun a w => PollLaw args env tick a ∧ w = (v.filled tick).reported reported)
        (onData p : SlirpProg L α)
        (fun _ => On fun a w => PollLaw args env tick a ∧ w = (v.filled tick).reported reported)
        fun _ => On fun a _ => PollLaw args env tick a := by
    intro α p
    refine ((onData_apart p).triple _).conseq_stop ?_
    rintro _ _ _ ⟨h, -⟩
    exact h
  refine .bind (dispatch_triple hv hpoll) fun r => ?_
  cases r with
  | none =>
    refine .pure ?_
    rintro es s ⟨⟨hlaw, hpolls⟩, hexit⟩
    exact ⟨hlaw, hpolls ▸ hv.filled_reported reported, fun _ _ _ => hexit rfl⟩
  | some pollout =>
    have hafter : Prog.Triple
        (On fun a w => PollLaw args env tick a ∧ w = (v.filled tick).reported reported)
        (afterEvents (L := L) tick idxs pollout)
        (fun _ => On fun a w => PollLaw args env tick a ∧ w = (v.filled tick).reported reported)
        fun _ => On fun a _ => PollLaw args env tick a :=
      .bind (On.call rfl) fun _ => .bind (getAllRevents_triple _ hpoll) fun _ =>
        .bind (hdata _) fun _ => .bind (hdata _) fun _ => hdata _
    refine Prog.Triple.conseq (.bind hafter fun _ => .pure ?_) (fun _ _ h => h.1) fun _ _ _ h => h
    rintro es s ⟨hlaw, hpolls⟩
    refine ⟨hlaw, hpolls ▸ hv.filled_reported reported, ?_⟩
    rintro ret hret
    cases hret

/-- **One turn** keeps to the law and keeps the invariant. -/
theorem turn_triple {C : Libc} (hv : PollInv args env v) :
    Prog.Triple (On fun a w => a = [] ∧ w = v) (turn (L := L) C tick)
      (fun r => On fun a w => PollLaw args env tick a ∧ PollInv args env w ∧
        (∀ ret, r = some ret → 0 ≤ ret → ExitEvent args tick))
      fun _ => On fun a _ => PollLaw args env tick a := by
  refine .bind (pollFds_triple hv) fun r => ?_
  obtain ⟨_ | ⟨count, reported⟩, idxs⟩ := r
  · refine .pure ?_
    rintro es s ⟨-, -, hlaw, hpolls⟩
    refine ⟨hlaw, hpolls ▸ hv.filled, ?_⟩
    rintro ret hret hge
    cases hret
    omega
  · rintro es s ⟨hpoll, -, hlaw, hpolls⟩
    exact handleEvents_triple hv hpoll es s ⟨hlaw, hpolls⟩

/-! ## Startup -/

theorem unlessErr_triple {p q : SlirpProg L Bool} {I J K : List Act → SlirpState L → Prop}
    {E : End → List Act → SlirpState L → Prop}
    (hp : Prog.Triple I p (fun b es s => b = true → J es s) E)
    (hq : Prog.Triple J q (fun b es s => b = true → K es s) E) :
    Prog.Triple I (unlessErr p q) (fun b es s => b = true → K es s) E := by
  refine .bind hp fun b => ?_
  cases b with
  | true => exact hq.conseq (fun _ _ h => h rfl) fun _ _ _ h => h
  | false => exact .pure fun _ _ _ h => Bool.noConfusion h

theorem unlessErr_calls {A : Act → Prop} {p q : SlirpProg L Bool} (hp : p.AllCalls A)
    (hq : q.AllCalls A) : (unlessErr p q).AllCalls A := .bind hp fun _ => .ite hq (.pure _)

theorem createSlirp_apart : Apart (createSlirp (L := L) env) :=
  .bind (onData_apart _) fun _ => .bind (.call rfl) fun _ => .bind (.when (eprintf_apart _)) fun _ =>
    .bind (.when (eprintf_apart _)) fun _ => .pure _

theorem mallocBuf_apart : Apart (mallocBuf (L := L) env) :=
  .bind (.call rfl) fun _ => .bind (.update fun _ => rfl) fun _ => .pure _

theorem enableSeccomp_apart (env : SeccompEnv) : Apart (enableSeccomp env : SlirpProg L ℤ) :=
  enableSeccomp_keeps (fun _ => rfl) (fun _ => rfl) env

theorem sandboxStep_apart : Apart (sandboxStep (L := L) args env) :=
  .ite (.bind (.call rfl) fun _ => .bind (.when (eprintf_apart _)) fun _ => .pure _) (.pure _)

theorem seccompStep_apart : Apart (seccompStep (L := L) args env) :=
  .ite (.bind (enableSeccomp_apart _) fun _ => .bind (.call rfl) fun _ =>
    .bind (.when (eprintf_apart _)) fun _ => .pure _) (.pure _)

theorem signalReady_apart : Apart (signalReady (L := L) args env) := by
  refine .when (.bind (retry_keeps ?_ (fun _ => ?_) _) fun _ => .call rfl) <;> rfl

/-- The array before the API descriptor is added. -/
def startPolls (args : Args) : Polls :=
  let tap : GPollFD := ⟨args.tapfd, (gIoIn ||| gIoHup).setWidth 16, 0⟩
  if args.exitfd ≥ 0 then ⟨[tap, ⟨args.exitfd, gIoHup.setWidth 16, 0⟩], 2, 1, -1⟩
  else ⟨[tap], 1, -1, -1⟩

/-- The array with the API socket. -/
def Polls.addApi (v : Polls) (fd : ℤ) : Polls :=
  ⟨v.pollfds ++ [⟨fd, (gIoIn ||| gIoHup).setWidth 16, 0⟩], v.nFds + 1, v.exitIdx, v.nFds⟩

theorem startPolls_inv (env : Startup) (h : args.apiSocket.isSome = false) :
    PollInv args env (startPolls args) := by
  unfold startPolls
  split <;> constructor <;> simp [fixedFds, GPollFD.asked, *]

theorem startPolls_addApi_inv (env : Startup) (h : args.apiSocket.isSome = true) :
    PollInv args env ((startPolls args).addApi env.apiBindlisten) := by
  unfold startPolls
  split <;> constructor <;> simp [fixedFds, GPollFD.asked, Polls.addApi, *]

theorem addFixedFds_polls {E : End → List Act → SlirpState L → Prop} :
    Prog.Triple (On fun _ w => w = ⟨[], 1, -1, -1⟩) (addFixedFds (L := L) args)
      (fun b es s => b = true → On (fun _ w => w = startPolls args) es s) E := by
  let tap : GPollFD := ⟨args.tapfd, (gIoIn ||| gIoHup).setWidth 16, 0⟩
  refine .bind (Q := fun _ => On fun _ w => w = ⟨[tap], 1, -1, -1⟩) (.update ?_) fun _ =>
    .bind (Q := fun _ => On fun _ w => w = startPolls args) (.ite (fun hfd => .update ?_)
      fun hfd => .pure ?_) fun _ => .pure fun _ _ h _ => h
  · rintro es s hpolls
    obtain ⟨hfds, hn, hexit, hapi⟩ := Polls.mk.inj (show s.polls = _ from hpolls)
    simp [On, SlirpState.polls, SlirpState.appendFd, hfds, hn, hexit, hapi, tap]
  · rintro es s hpolls
    obtain ⟨hfds, hn, hexit, hapi⟩ := Polls.mk.inj (show s.polls = _ from hpolls)
    simp [On, SlirpState.polls, SlirpState.appendFd, hfds, hn, hapi, tap, startPolls, hfd]
  · rintro es s hpolls
    rw [On, show s.polls = _ from hpolls, startPolls, if_neg hfd]

theorem openApi_polls : Prog.Triple (On fun _ w => w = startPolls args)
    (openApi (L := L) args env)
    (fun b es s => b = true → On (fun _ w => PollInv args env w) es s) fun _ _ _ => True := by
  refine .ite (fun hapi => .bind (On.call rfl) fun _ => .ite (fun _ => ?_) fun _ => ?_)
    fun hapi => ?_
  · exact .pure fun _ _ _ h => Bool.noConfusion h
  · unfold allocApiCtx
    split
    · exact .bind (On.call rfl) fun _ => .bind (On.call rfl) fun _ =>
        .pure fun _ _ _ h => Bool.noConfusion h
    · refine .bind (On.call rfl) fun _ => .bind (Q := fun _ => On fun _ w => PollInv args env w)
        (.update ?_) fun _ => .pure fun _ _ h _ => h
      rintro es s hpolls
      have hadd := startPolls_addApi_inv env hapi
      rw [← show s.polls = startPolls args from hpolls] at hadd
      exact hadd
  · refine .pure ?_
    rintro es s hpolls _
    have hinv := startPolls_inv env (by simpa using hapi)
    rw [← show s.polls = startPolls args from hpolls] at hinv
    exact hinv

/-- **The startup**, if it succeeds, leaves the fixed descriptors in the array. -/
theorem startup_polls : Prog.Triple (On fun _ w => w = ⟨[], 1, -1, -1⟩) (startup (L := L) args env)
    (fun b es s => b = true → On (fun _ w => PollInv args env w) es s) fun _ _ _ => True := by
  have hapart : ∀ {p : SlirpProg L Bool} {I : List Act → Polls → Prop}, Apart p →
      Prog.Triple (On I) p (fun b es s => b = true → On I es s) fun _ _ _ => True := by
    intro p I hp
    refine Prog.Triple.conseq_stop (Prog.Triple.conseq (hp.triple I) (fun _ _ h => h) ?_) ?_
    · exact fun _ _ _ h _ => h
    · exact fun _ _ _ _ => trivial
  refine unlessErr_triple (hapart createSlirp_apart) <| unlessErr_triple (hapart mallocBuf_apart) <|
    unlessErr_triple addFixedFds_polls <| unlessErr_triple openApi_polls <|
      unlessErr_triple (hapart ?_) <| unlessErr_triple (hapart sandboxStep_apart) <|
        hapart seccompStep_apart
  exact .bind (.call rfl) fun _ => .pure _

end

/-! ## The loop -/

/-- The states in which a turn of the loop begins, after the turns `done`. -/
inductive AtHead (C : Libc) (args : Args) (env : Startup) (slirp : L.State) :
    List Tick → SlirpState L → Prop
  | start {s₁ s : SlirpState L} {es es' : List Act}
      (hstartup : (startup args env).run (.init slirp) = ⟨.ret true, s₁, es⟩)
      (hready : (signalReady args env).run s₁ = ⟨.ret (), s, es'⟩) : AtHead C args env slirp [] s
  | step {done : List Tick} {tick : Tick} {s s' : SlirpState L} {es : List Act}
      (hhead : AtHead C args env slirp done s)
      (hturn : (turn C tick).run s = ⟨.ret none, s', es⟩) :
      AtHead C args env slirp (done ++ [tick]) s'

/-- The states in which `slirp_pollfds_poll` is called in a turn after the turns `done`, and what the
    kernel has reported in it. -/
inductive AtPoll (C : Libc) (args : Args) (env : Startup) (slirp : L.State) (done : List Tick)
    (tick : Tick) (reported : List (BitVec 16)) : SlirpState L → Prop
  | mk {s₀ s₁ s : SlirpState L} {count : ℕ} {idxs : List ℕ} {pollout : ℤ} {es es' : List Act}
      (hhead : AtHead C args env slirp done s₀)
      (hpoll : (pollFds tick).run s₀ = ⟨.ret (.ready count reported, idxs), s₁, es⟩)
      (hevents : (dispatch C tick count reported).run s₁ = ⟨.ret (some pollout), s, es'⟩) :
      AtPoll C args env slirp done tick reported s

section
variable {C : Libc} {args : Args} {env : Startup} {slirp : L.State} {done ticks : List Tick}
  {s : SlirpState L}

theorem AtHead.inv (h : AtHead C args env slirp done s) : PollInv args env s.polls := by
  induction h with
  | @start s₁ s es es' hstartup hready =>
    have hinv := @startup_polls L args env [] (.init slirp) rfl
    rw [hstartup] at hinv
    have hkeeps := (@signalReady_apart L args env).same s₁
    rw [hready] at hkeeps
    rw [show s.polls = s₁.polls from hkeeps]
    exact hinv rfl
  | @step done tick s s' es hhead hturn ih =>
    have hlaw := @turn_triple L args env tick _ C ih [] s ⟨rfl, rfl⟩
    rw [hturn] at hlaw
    exact hlaw.2.1

theorem PollLaw.of_pollActs {tick : Tick} {es : List Act}
    (h : PollLaw args env tick (pollActs es)) : PollLaw args env tick es where
  added := by
    have hfilter : (pollActs es).filterMap Act.addPoll? = es.filterMap Act.addPoll? := by
      rw [pollActs, List.filterMap_filter]
      congr 1
      ext e : 1
      cases e <;> rfl
    rw [← hfilter, h.added]
  polled fds timeout rc hmem := h.polled fds timeout rc (List.mem_filter.2 ⟨hmem, rfl⟩)
  revents idx revents hmem := h.revents idx revents (List.mem_filter.2 ⟨hmem, rfl⟩)

/-- What a turn from the head of the loop does. -/
theorem AtHead.law (h : AtHead C args env slirp done s) (tick : Tick) :
    PollLaw args env tick ((turn C tick).run s).calls := by
  have hlaw := @turn_triple L args env tick _ C h.inv [] s ⟨rfl, rfl⟩
  rw [List.nil_append] at hlaw
  apply PollLaw.of_pollActs
  split at hlaw
  · exact hlaw.1
  · exact hlaw

/-- The indices that libslirp gets. -/
theorem AtHead.indices (h : AtHead C args env slirp done s) {tick : Tick} {r : PollResult}
    {idxs : List ℕ} {s₁ : SlirpState L} {es : List Act}
    (hrun : (pollFds tick).run s = ⟨.ret (r, idxs), s₁, es⟩) :
    tick.fill.zip idxs = tick.fill.zipIdx (fixedFds args env).length := by
  have hpoll := @pollFds_triple L args env tick _ h.inv [] s ⟨rfl, rfl⟩
  rw [hrun] at hpoll
  obtain ⟨-, hidxs, -⟩ := hpoll
  rw [List.zipIdx_eq_zip_range', show idxs = _ from hidxs]

/-- The array in which `slirp_pollfds_poll` looks up the events. -/
theorem AtPoll.polls {tick : Tick} {reported : List (BitVec 16)}
    (h : AtPoll C args env slirp done tick reported s) :
    ∃ v, PollInv args env v ∧ s.polls = (v.filled tick).reported reported := by
  obtain ⟨hhead, hpoll, hevents⟩ := h
  have hpolled := @pollFds_triple L args env tick _ hhead.inv [] _ ⟨rfl, rfl⟩
  rw [hpoll] at hpolled
  obtain ⟨hresult, -, hlaw, hfilled⟩ := hpolled
  have hdone := @dispatch_triple L args env tick _ C _ _ hhead.inv hresult _ _ ⟨hlaw, hfilled⟩
  rw [hevents] at hdone
  exact ⟨_, hhead.inv, hdone.1.2⟩

/-- What `libslirp_get_revents` returns for a registration. -/
theorem AtPoll.getRevents {tick : Tick} {reported : List (BitVec 16)}
    (h : AtPoll C args env slirp done tick reported s) {r : ℤ × BitVec 32} {idx : ℕ}
    (hr : (r, idx) ∈ tick.fill.zipIdx (fixedFds args env).length) :
    let revents := libslirpGioToPoll ((reported.getD idx 0).setWidth 32)
    s.pollfds[idx]? = some { registered r with revents := reported.getD idx 0 } ∧
      (libslirpGetRevents idx).run s = ⟨.ret revents, s, [.getRevents idx revents]⟩ := by
  obtain ⟨v, hinv, hpolls⟩ := h.polls
  have hentry := hinv.registered_at reported hr
  rw [← hpolls] at hentry
  exact ⟨hentry, libslirpGetRevents_run hentry⟩

/-- Every act of the loop is one of a turn. -/
theorem AtHead.loop_calls (h : AtHead C args env slirp done s) {e : Act}
    (he : e ∈ ((loop C ticks).run s).calls) : ∃ before tick after s',
      ticks = before ++ tick :: after ∧ AtHead C args env slirp (done ++ before) s' ∧
      e ∈ ((turn C tick).run s').calls := by
  induction ticks generalizing done s with
  | nil => exact absurd he List.not_mem_nil
  | cons tick ticks ih =>
    rw [loop, Prog.bind_run] at he
    by_cases hturn : e ∈ ((turn C tick).run s).calls
    · exact ⟨[], tick, ticks, s, rfl, by rwa [List.append_nil], hturn⟩
    · rcases hr : (turn C tick).run s with ⟨(_ | ret) | why, s', es⟩
      · rw [hr] at he hturn
        rcases List.mem_append.1 he with he | he
        · exact absurd he hturn
        · obtain ⟨before, tick', after, s'', rfl, hhead, hmem⟩ := ih (h.step hr) he
          refine ⟨tick :: before, tick', after, s'', rfl, ?_, hmem⟩
          simpa using hhead
      · rw [hr] at he hturn
        rcases List.mem_append.1 he with he | he
        · exact absurd he hturn
        · exact absurd he List.not_mem_nil
      · rw [hr] at he hturn
        exact absurd he hturn

/-- The loop is left by a turn. -/
theorem AtHead.loop_ret (h : AtHead C args env slirp done s) {ret : ℤ}
    (hret : ((loop C ticks).run s).out = .ret ret) : ∃ before tick after s',
      ticks = before ++ tick :: after ∧ AtHead C args env slirp (done ++ before) s' ∧
      ((turn C tick).run s').out = .ret (some ret) := by
  induction ticks generalizing done s with
  | nil => cases hret
  | cons tick ticks ih =>
    rw [loop, Prog.bind_run] at hret
    rcases hr : (turn C tick).run s with ⟨(_ | ret') | why, s', es⟩
    · rw [hr] at hret
      obtain ⟨before, tick', after, s'', rfl, hhead, hout⟩ := ih (h.step hr) hret
      refine ⟨tick :: before, tick', after, s'', rfl, ?_, hout⟩
      simpa using hhead
    · rw [hr] at hret
      cases hret
      exact ⟨[], tick, ticks, s, rfl, by rwa [List.append_nil], by rw [hr]⟩
    · rw [hr] at hret
      cases hret

theorem startup_silent : (startup (L := L) args env).AllCalls fun e => e.OfPoll = false := by
  have hfixed : (addFixedFds (L := L) args).AllCalls fun e => e.OfPoll = false :=
    .bind (.update _) fun _ => .bind (.when (.update _)) fun _ => .pure _
  have hapi : (openApi (L := L) args env).AllCalls fun e => e.OfPoll = false := by
    refine .ite (.bind (.call rfl) fun _ => .ite (.pure _) ?_) (.pure _)
    unfold allocApiCtx
    split
    · exact .bind (.call rfl) fun _ => .bind (.call rfl) fun _ => .pure _
    · exact .bind (.call rfl) fun _ => .bind (.update _) fun _ => .pure _
  exact unlessErr_calls createSlirp_apart.calls <| unlessErr_calls mallocBuf_apart.calls <|
    unlessErr_calls hfixed <| unlessErr_calls hapi <|
      unlessErr_calls (.bind (.call rfl) fun _ => .pure _) <|
        unlessErr_calls sandboxStep_apart.calls seccompStep_apart.calls

theorem exiting_apart (ret : ℤ) : Apart (exiting (L := L) args ret) :=
  .bind (eprintf_apart _) fun _ => .bind .state fun _ => .bind (.when (.call rfl)) fun _ =>
    .bind (.when (.bind (.call rfl) fun _ => .call rfl)) fun _ => .bind (.call rfl) fun _ => .pure _

theorem exiting_out (ret : ℤ) (s : SlirpState L) :
    ((exiting (L := L) args ret).run s).out = .ret ret := by
  have hcall : ∀ e, Prog.Triple (fun _ _ => True) (Prog.call e : SlirpProg L Unit)
      (fun _ _ _ => True) fun _ _ _ => False := fun _ => .call fun _ _ _ => trivial
  have htriple : Prog.Triple (fun _ _ => True) (exiting (L := L) args ret)
      (fun r _ _ => r = ret) fun _ _ _ => False := by
    refine .bind (hcall _) fun _ => .state_bind fun s₀ =>
      Prog.Triple.conseq (P := fun _ _ => True) ?_ (fun _ _ _ => trivial) fun _ _ _ h => h
    exact .bind (.when (hcall _)) fun _ => .bind (.when (.bind (hcall _) fun _ => hcall _)) fun _ =>
      .bind (hcall _) fun _ => .pure fun _ _ _ => rfl
  have hrun := htriple [] s trivial
  split at hrun
  · next r hr => rw [hr, hrun]
  · exact hrun.elim

/-- What `do_slirp` does after the startup. -/
theorem serve_cases (C : Libc) (args : Args) (env : Startup) (ticks : List Tick)
    (s₁ : SlirpState L) :
    let r := (serveLoop C args env ticks >>= exiting args).run s₁
    ((∀ ret, 0 ≤ ret → r.out ≠ .ret ret) ∧ ∀ e ∈ r.calls, e.OfPoll = false) ∨
    ∃ s es, (signalReady args env).run s₁ = ⟨.ret (), s, es⟩ ∧
      (∀ ret, r.out = .ret ret → ((loop C ticks).run s).out = .ret ret) ∧
      ∀ e ∈ r.calls, e.OfPoll = true → e ∈ ((loop C ticks).run s).calls := by
  intro r
  have hsilent := (@signalReady_apart L args env).calls s₁
  have hr : r = Prog.andThen (Prog.andThen ((signalReady args env).run s₁) fun _ => loop C ticks)
    (exiting args) := rfl
  rcases hready : (signalReady args env).run s₁ with ⟨_ | why, s, es⟩
  · rw [hready] at hr hsilent
    refine .inr ⟨s, es, rfl, ?_⟩
    rcases hloop : (loop C ticks).run s with ⟨ret | why, s', fs⟩
    · have hexit := (@exiting_apart L args ret).calls s'
      rw [Prog.andThen_ret, hloop] at hr
      rw [hr]
      refine ⟨fun ret' hout => ?_, fun e he hpoll => ?_⟩
      · have hret : ((exiting (L := L) args ret).run s').out = .ret ret' := hout
        rw [exiting_out] at hret
        exact hret
      · rcases List.mem_append.1 he with he | he
        · rcases List.mem_append.1 he with he | he
          · rw [hsilent e he] at hpoll
            cases hpoll
          · exact he
        · rw [hexit e he] at hpoll
          cases hpoll
    · rw [Prog.andThen_ret, hloop] at hr
      rw [hr]
      refine ⟨fun ret' hout => (by cases hout), fun e he hpoll => ?_⟩
      rcases List.mem_append.1 he with he | he
      · rw [hsilent e he] at hpoll
        cases hpoll
      · exact he
  · rw [hready] at hr hsilent
    rw [hr]
    exact .inl ⟨fun _ _ => nofun, hsilent⟩

/-- The run of `do_slirp` up to the head of the loop, and what comes after it. -/
theorem doSlirp_cases (C : Libc) (args : Args) (env : Startup) (slirp : L.State)
    (ticks : List Tick) : let r := (doSlirp C args env ticks).run (.init slirp)
    ((∀ ret, 0 ≤ ret → r.out ≠ .ret ret) ∧ ∀ e ∈ r.calls, e.OfPoll = false) ∨
    ∃ s, AtHead C args env slirp [] s ∧
      (∀ ret, r.out = .ret ret → ((loop C ticks).run s).out = .ret ret) ∧
      ∀ e ∈ r.calls, e.OfPoll = true → e ∈ ((loop C ticks).run s).calls := by
  intro r
  have hsilent := @startup_silent L args env (.init slirp)
  have hr : r = Prog.andThen ((startup args env).run (.init slirp)) fun ok =>
    if ok then serveLoop C args env ticks >>= exiting args else exiting args (-1) := rfl
  rcases hstartup : (startup args env).run (.init slirp) with ⟨(_ | _) | why, s₁, es⟩
  · have hexit := (@exiting_apart L args (-1)).calls s₁
    rw [hstartup] at hr hsilent
    rw [hr]
    refine .inl ⟨fun ret hge hout => ?_, fun e he => ?_⟩
    · have hret : ((exiting (L := L) args (-1)).run s₁).out = .ret ret := hout
      rw [exiting_out] at hret
      cases hret
      omega
    · rcases List.mem_append.1 he with he | he
      · exact hsilent e he
      · exact hexit e he
  · rw [hstartup] at hr hsilent
    have hserve := serve_cases C args env ticks s₁
    rw [hr]
    rcases hserve with ⟨hout, hcalls⟩ | ⟨s, es', hready, hout, hcalls⟩
    · refine .inl ⟨hout, fun e he => ?_⟩
      rcases List.mem_append.1 he with he | he
      · exact hsilent e he
      · exact hcalls e he
    · refine .inr ⟨s, .start hstartup hready, hout, fun e he hpoll => ?_⟩
      rcases List.mem_append.1 he with he | he
      · rw [hsilent e he] at hpoll
        cases hpoll
      · exact hcalls e he hpoll
  · rw [hstartup] at hr hsilent
    rw [hr]
    exact .inl ⟨fun _ _ => nofun, hsilent⟩

/-- **`do_slirp` succeeds through the exit descriptor only.** -/
theorem doSlirp_nonneg {slirp : L.State} {ret : ℤ}
    (h : ((doSlirp C args env ticks).run (.init slirp)).out = .ret ret) (hge : 0 ≤ ret) :
    ∃ before tick after s, ticks = before ++ tick :: after ∧ AtHead C args env slirp before s ∧
      ((turn C tick).run s).out = .ret (some ret) ∧ ExitEvent args tick := by
  rcases doSlirp_cases C args env slirp ticks with ⟨hout, -⟩ | ⟨s, hhead, hout, -⟩
  · exact absurd h (hout ret hge)
  · obtain ⟨before, tick, after, s', rfl, hhead', hturn⟩ := hhead.loop_ret (hout ret h)
    refine ⟨before, tick, after, s', rfl, hhead', hturn, ?_⟩
    have hlaw := @turn_triple L args env tick _ C hhead'.inv [] s' ⟨rfl, rfl⟩
    rw [hturn] at hlaw
    exact hlaw.2.2 ret rfl hge

/-! ## Indices -/

/-- An index is `-1` if there is no such descriptor, and else its position in the prefix, which is
    not the first. -/
def Indexed (fds : List (ℤ × BitVec 16)) (given : Prop) (idx fd : ℤ) (events : BitVec 32) : Prop :=
  (¬ given ∧ idx = -1) ∨
    (given ∧ ∃ i : ℕ, idx = i ∧ 1 ≤ i ∧ i < fds.length ∧ fds[i]? = some (fd, events.setWidth 16))

theorem PollInv.exit_indexed {v : Polls} (h : PollInv args env v) :
    Indexed (fixedFds args env) (0 ≤ args.exitfd) v.exitIdx args.exitfd gIoHup := by
  rw [h.exitIdx]
  by_cases hexit : 0 ≤ args.exitfd
  · exact .inr ⟨hexit, 1, by simp [hexit], le_refl _, by simp [fixedFds, hexit], by
      simp [fixedFds, hexit]⟩
  · exact .inl ⟨hexit, if_neg hexit⟩

theorem PollInv.api_indexed {v : Polls} (h : PollInv args env v) :
    Indexed (fixedFds args env) (args.apiSocket.isSome = true) v.apiIdx env.apiBindlisten
      (gIoIn ||| gIoHup) := by
  rw [h.apiIdx, h.nFds]
  by_cases hapi : args.apiSocket.isSome = true
  · refine .inr ⟨hapi, (fixedFds args env).length - 1, ?_, ?_, ?_, ?_⟩ <;>
      by_cases hexit : 0 ≤ args.exitfd <;> simp [fixedFds, hapi, hexit]
  · exact .inl ⟨hapi, if_neg hapi⟩

theorem PollInv.idx_ne {v : Polls} (h : PollInv args env v) (hexit : 0 ≤ args.exitfd)
    (hapi : args.apiSocket.isSome = true) : v.exitIdx ≠ v.apiIdx := by
  rw [h.exitIdx, h.apiIdx, h.nFds]
  simp [fixedFds, hexit, hapi]

/-- **The poll array.**  In every turn of the loop, `g_poll` gets the fixed prefix followed by the
    registrations of this turn in order; the registrations get the positions behind the prefix, one
    after the other; the two indices point to their descriptors; and for the index of a registration
    `libslirp_get_revents` returns what the kernel reported for it.  All that is done with the array
    is done in such turns. -/
theorem poll_array (C : Libc) (args : Args) (env : Startup) (slirp : L.State) (ticks : List Tick) :
    (∀ done s tick, AtHead C args env slirp done s →
      let n := (fixedFds args env).length
      let calls := ((turn C tick).run s).calls
      let added := calls.filterMap Act.addPoll?
      s.nFds = n ∧
      Indexed (fixedFds args env) (0 ≤ args.exitfd) s.pollfdsExitfdIdx args.exitfd gIoHup ∧
      Indexed (fixedFds args env) (args.apiSocket.isSome = true) s.pollfdsApifdIdx
        env.apiBindlisten (gIoIn ||| gIoHup) ∧
      (0 ≤ args.exitfd → args.apiSocket.isSome = true →
        s.pollfdsExitfdIdx ≠ s.pollfdsApifdIdx) ∧
      added = tick.fill.zipIdx n ∧
      (∀ r idxs s₁ es, (pollFds tick).run s = ⟨.ret (r, idxs), s₁, es⟩ →
        tick.fill.zip idxs = added) ∧
      (∀ r ∈ added, n ≤ r.2) ∧ (added.map Prod.snd).Nodup ∧
      (∀ fds timeout rc, .gPoll fds timeout rc ∈ calls →
        fds = fixedFds args env ++ tick.fill.map fun r => (registered r).asked) ∧
      (∀ reported s₂, AtPoll C args env slirp done tick reported s₂ → ∀ r idx, (r, idx) ∈ added →
        let revents := libslirpGioToPoll ((reported.getD idx 0).setWidth 32)
        s₂.pollfds[idx]? = some { registered r with revents := reported.getD idx 0 } ∧
          (libslirpGetRevents idx).run s₂ = ⟨.ret revents, s₂, [.getRevents idx revents]⟩) ∧
      ∀ idx revents, .getRevents idx revents ∈ calls → ∃ count reported,
        tick.poll.result = some (.ready count reported) ∧
        revents = libslirpGioToPoll ((reported.getD idx 0).setWidth 32)) ∧
    (∀ e ∈ ((doSlirp C args env ticks).run (.init slirp)).calls, e.OfPoll = true →
      ∃ done tick rest s, ticks = done ++ tick :: rest ∧ AtHead C args env slirp done s ∧
        e ∈ ((turn C tick).run s).calls) ∧
    ∀ events, FiveEvents events → libslirpGioToPoll (libslirpPollToGio events) = events ∧
      libslirpPollToGio (libslirpGioToPoll events) = events := by
  refine ⟨?_, ?_, fun events h => ⟨gioToPoll_pollToGio h, pollToGio_gioToPoll h⟩⟩
  · intro done s tick h n calls added
    have hlaw := h.law tick
    have hadded : added = tick.fill.zipIdx n := hlaw.added
    refine ⟨h.inv.nFds, h.inv.exit_indexed, h.inv.api_indexed, h.inv.idx_ne, hadded, ?_, ?_, ?_,
      hlaw.polled, ?_, hlaw.revents⟩
    · intro r idxs s₁ es hrun
      rw [hadded]
      exact h.indices hrun
    · intro r hr
      rw [hadded] at hr
      exact List.le_snd_of_mem_zipIdx hr
    · rw [hadded, List.zipIdx_map_snd]
      exact List.nodup_range'
    · intro reported s₂ hpoll r idx hr
      rw [hadded] at hr
      exact hpoll.getRevents hr
  · intro e he hpoll
    rcases doSlirp_cases C args env slirp ticks with ⟨-, hsilent⟩ | ⟨s, hhead, -, hcalls⟩
    · rw [hsilent e he] at hpoll
      cases hpoll
    · exact hhead.loop_calls (hcalls e he hpoll)

end

/-! ### A sample turn -/

section
variable {C : Libc} {args : Args} {env : Startup} {slirp : L.State} {done : List Tick}
  {s : SlirpState L}

theorem AtHead.of_out (hstartup : ((startup args env).run (.init slirp)).out = .ret true)
    (hready : ((signalReady args env).run ((startup args env).run (.init slirp)).st).out = .ret ()) :
    AtHead C args env slirp []
      ((signalReady args env).run ((startup args env).run (.init slirp)).st).st :=
  .start (Ran.eq_of_out hstartup) (Ran.eq_of_out hready)

theorem AtPoll.of_out {tick : Tick} {count : ℕ} {reported : List (BitVec 16)} {idxs : List ℕ}
    {pollout : ℤ} (hhead : AtHead C args env slirp done s)
    (hpoll : ((pollFds tick).run s).out = .ret (.ready count reported, idxs))
    (hevents : ((dispatch C tick count reported).run ((pollFds tick).run s).st).out =
      .ret (some pollout)) :
    AtPoll C args env slirp done tick reported
      ((dispatch C tick count reported).run ((pollFds tick).run s).st).st :=
  .mk hhead (Ran.eq_of_out hpoll) (Ran.eq_of_out hevents)

end

/-- The exit descriptor and the API are asked for. -/
def pollArgs : Args := { sampleArgs with apiSocket := some (bytes "/run/s4n.sock") }

/-- The API socket is descriptor 6. -/
def pollStartup : Startup :=
  { sampleStartup with apiBindlisten := 6, apiCtxAlloc := some fun _ => 0 }

/-- libslirp registers two descriptors, and both have an event. -/
def pollTick : Tick :=
  { sampleTick with
    fill := [(7, slirpPollIn), (8, slirpPollOut ||| slirpPollHup)]
    poll := ⟨0, some (.ready 2 [0, 0, 0, 1, 20])⟩ }

/-- No forwards. -/
def pollSlirp : tableLibslirp.toLibslirp.State := Table.mk [] []

/-- The head of the loop, before the first turn. -/
def pollHead : SlirpState tableLibslirp.toLibslirp :=
  ((signalReady pollArgs pollStartup).run
    ((startup pollArgs pollStartup).run (.init pollSlirp)).st).st

theorem pollHead_atHead : AtHead .exact pollArgs pollStartup pollSlirp [] pollHead :=
  .of_out (by decide +kernel) (by decide +kernel)

/-- The two descriptors are polled behind the three fixed ones, and libslirp is told their events. -/
theorem poll_array_sample :
    let calls := ((turn .exact pollTick).run pollHead).calls
    calls.filterMap Act.addPoll? = [((7, 1), 3), ((8, 18), 4)] ∧
    (∀ fds timeout rc, .gPoll fds timeout rc ∈ calls →
      fds = [(3, 17), (5, 16), (6, 17), (7, 1), (8, 20)]) ∧
    ∃ s₂, AtPoll .exact pollArgs pollStartup pollSlirp [] pollTick [0, 0, 0, 1, 20] s₂ ∧
      ((libslirpGetRevents 3).run s₂).out = .ret 1 ∧
      ((libslirpGetRevents 4).run s₂).out = .ret 18 := by
  intro calls
  obtain ⟨hturn, -, -⟩ := poll_array .exact pollArgs pollStartup pollSlirp []
  obtain ⟨-, -, -, -, hadded, -, -, -, hpolled, hrevents, -⟩ := hturn [] pollHead pollTick
    pollHead_atHead
  have hfds : (fixedFds pollArgs pollStartup).length = 3 := by decide
  rw [hfds] at hadded
  have hpolled' : ((pollFds pollTick).run pollHead).out =
      .ret (.ready 2 [0, 0, 0, 1, 20], [3, 4]) := by decide +kernel
  have hevents : ((dispatch .exact pollTick 2 [0, 0, 0, 1, 20]).run
      ((pollFds pollTick).run pollHead).st).out = .ret (some 2) := by decide +kernel
  have hpoll := AtPoll.of_out pollHead_atHead hpolled' hevents
  refine ⟨hadded, hpolled, _, hpoll, ?_, ?_⟩
  · rw [(hrevents _ _ hpoll (7, slirpPollIn) 3 (by rw [hadded]; decide)).2]
    decide
  · rw [(hrevents _ _ hpoll (8, slirpPollOut ||| slirpPollHup) 4 (by rw [hadded]; decide)).2]
    decide

end Slirp4netns
