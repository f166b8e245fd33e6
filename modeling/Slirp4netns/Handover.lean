/-
  slirp4netns formalization — how the descriptor gets from the child to
  `do_slirp`.

  `Handover` is a law of the trace of both processes:

  * the parent calls `recvfd` only when the child has exited with status 0 and
    exactly one message is in the queue;
  * `parent` and `do_slirp` are called only with the descriptor received, or with
    the one of `--netns-type=tapfd` when there is no child; and after a child
    with `-c` only if every request of `configure_network` has succeeded.

  The child keeps its part by sending exactly one descriptor in each run that
  returns 0 (`childProcess_delivers`).  `main_handover` adds that the parent never
  blocks and exits with 0 only after an event of the exit descriptor.
-/
import Slirp4netns.Lib.Trace
import Slirp4netns.Main
import Slirp4netns.PollArray

namespace Slirp4netns

/-! ## Failing code -/

/-- Code that returns only errors. -/
def Fails (p : SysProg ℤ) : Prop := ∀ s, (p.run s).value < 0

theorem Fails.error {rc : ℤ} (h : rc < 0) : Fails (pure rc) := fun _ => h

theorem Fails.bind {α : Type} {p : SysProg α} {q : α → SysProg ℤ} (h : ∀ a, Fails (q a)) :
    Fails (p >>= q) := by
  intro s
  rw [Prog.bind_run]
  rcases p.run s with ⟨a | why, s', es⟩
  · exact h a s'
  · exact why.elim

theorem Fails.triple {p : SysProg ℤ} (h : Fails p) {P : List Sys → Unit → Prop}
    {Q : ℤ → List Sys → Unit → Prop} :
    Prog.Triple P p (fun rc es s => 0 ≤ rc → Q rc es s) fun _ _ _ => True := by
  intro es s _
  rw [Ran.out_eq_value]
  exact fun hge => absurd (h s) (Int.not_lt.2 hge)

/-! ## nsenter -/

/-- The network namespace that `nsenter` is asked to enter. -/
def netnsAsked (targetPid : ℤ) (netns : Option Bytes) (onlyUserns : Bool) : Option Bytes :=
  if onlyUserns then none else some (netns.getD (nsPath targetPid "net"))

/-- The user namespace that `nsenter` is asked to enter. -/
def usernsAsked (targetPid : ℤ) (userns : Option Bytes) : Option Bytes :=
  userns.or (if targetPid ≠ 0 then some (nsPath targetPid "user") else none)

theorem usernsAsked_none {targetPid : ℤ} (hpid : targetPid ≠ 0) :
    usernsAsked targetPid none = some (nsPath targetPid "user") := by
  simp [usernsAsked, hpid]

theorem usernsAsked_of_not {targetPid : ℤ} {userns : Option Bytes}
    (h : ¬ (userns = none ∧ targetPid ≠ 0)) : usernsAsked targetPid userns = userns := by
  cases userns with
  | none => simp_all [usernsAsked]
  | some path => rfl

/-- The calls of `nsenter` for these two namespaces. -/
def NsCall (netns userns : Option Bytes) : Sys → Prop
  | .perror _ => True
  | .asprintf .. => True
  | .close _ => True
  | .openNs .net path _ => netns = some path
  | .openNs .user path _ => userns = some path
  | .setns .net path _ => netns = some path
  | .setns .user path _ => userns = some path
  | _ => False

section
variable {env : NsenterEnv} {netns userns : Option Bytes} {onlyUserns : Bool}

theorem nsenterFail_calls (usernsfd netnsfd : ℤ) :
    (nsenterFail usernsfd netnsfd).AllCalls (NsCall netns userns) :=
  .bind (.when (.call trivial)) fun _ => .bind (.when (.call trivial)) fun _ => .pure _

theorem enterNetns_calls : (enterNetns env netns).AllCalls (NsCall netns userns) := by
  cases netns with
  | none => exact .pure _
  | some path =>
    refine .bind (.call rfl) fun _ => .ite (.bind (.call trivial) fun _ => ?_) ?_
    · exact nsenterFail_calls _ _
    · exact .bind (.call trivial) fun _ => .pure _

theorem enterUserns_calls :
    (enterUserns env netns userns onlyUserns).AllCalls (NsCall netns userns) := by
  cases userns with
  | none => exact enterNetns_calls
  | some path =>
    refine .bind (.call rfl) fun _ => .ite (.bind (.call trivial) fun _ => ?_) ?_
    · exact nsenterFail_calls _ _
    · exact .bind (.call trivial) fun _ => enterNetns_calls

theorem openUserns_calls :
    (openUserns env netns userns onlyUserns).AllCalls (NsCall netns userns) := by
  cases userns with
  | none => exact enterNetns_calls
  | some path =>
    refine .bind (.call rfl) fun _ => .ite (.bind (.call trivial) fun _ => ?_) enterUserns_calls
    exact nsenterFail_calls _ _

theorem openNetns_calls :
    (openNetns env netns userns onlyUserns).AllCalls (NsCall netns userns) := by
  cases netns with
  | none => exact openUserns_calls
  | some path =>
    refine .bind (.call rfl) fun _ => .ite (.bind (.call trivial) fun _ => ?_) openUserns_calls
    exact nsenterFail_calls _ _

theorem usernsPathOf_calls {targetPid : ℤ} :
    (usernsPathOf env targetPid netns userns onlyUserns).AllCalls
      (NsCall netns (usernsAsked targetPid userns)) := by
  unfold usernsPathOf
  split
  · next h =>
    obtain ⟨rfl, hpid⟩ := h
    rw [usernsAsked_none hpid]
    refine .bind (.call trivial) fun _ => .ite openNetns_calls ?_
    exact .bind (.call trivial) fun _ => nsenterFail_calls _ _
  · next h =>
    rw [usernsAsked_of_not h]
    exact openNetns_calls

/-- **`nsenter` deals with the namespaces that it is asked for, and no others.** -/
theorem nsenter_calls {targetPid : ℤ} : (nsenter env targetPid netns userns onlyUserns).AllCalls
    (NsCall (netnsAsked targetPid netns onlyUserns) (usernsAsked targetPid userns)) := by
  unfold nsenter netnsAsked
  cases onlyUserns with
  | true => exact usernsPathOf_calls
  | false =>
    cases netns with
    | none =>
      refine .bind (.call trivial) fun _ => .ite usernsPathOf_calls ?_
      exact .bind (.call trivial) fun _ => nsenterFail_calls _ _
    | some path => exact usernsPathOf_calls

theorem nsenterFail_fails {usernsfd netnsfd : ℤ} : Fails (nsenterFail usernsfd netnsfd) :=
  .bind fun _ => .bind fun _ => .error (by decide)

/-- Code that returns nonnegative only after a call of `setns` for the user namespace, which has
    succeeded if this is the only one to enter. -/
def Enters (userns : Option Bytes) (onlyUserns : Bool) (p : SysProg ℤ) : Prop :=
  Prog.Triple (fun _ _ => True) p
    (fun rc es _ => 0 ≤ rc → ∀ path, userns = some path →
      ∃ r, .setns .user path r ∈ es ∧ (onlyUserns = true → 0 ≤ r)) fun _ _ _ => True

theorem Fails.enters {p : SysProg ℤ} (h : Fails p) : Enters userns onlyUserns p := h.triple

theorem Enters.bind {α : Type} {p : SysProg α} {q : α → SysProg ℤ}
    (h : ∀ a, Enters userns onlyUserns (q a)) : Enters userns onlyUserns (p >>= q) := by
  refine Prog.Triple.bind (Q := fun _ _ _ => True) (fun es s _ => ?_) h
  split <;> trivial

theorem Enters.ite {c : Prop} [Decidable c] {p q : SysProg ℤ}
    (hp : Enters userns onlyUserns p) (hq : Enters userns onlyUserns q) :
    Enters userns onlyUserns (if c then p else q) := by
  split
  exacts [hp, hq]

theorem enterUserns_enters :
    Enters userns onlyUserns (enterUserns env netns userns onlyUserns) := by
  cases userns with
  | none => exact fun es s _ => by split <;> simp
  | some path =>
    refine Prog.Triple.bind (Q := fun _ es _ => .setns .user path env.setnsUser ∈ es) (.call ?_)
      fun _ => .ite (fun _ => (Fails.bind fun _ => nsenterFail_fails).triple) fun hok => ?_
    · exact fun _ _ _ => List.mem_append_right _ (by simp)
    · refine Prog.Triple.conseq (.conseq_stop .mem fun _ _ _ _ => trivial) (fun _ _ h => h) ?_
      rintro rc es _ hmem - _ ⟨⟩
      exact ⟨_, hmem, fun honly => Int.not_lt.1 fun hneg => hok ⟨honly, hneg⟩⟩

theorem openUserns_enters : Enters userns onlyUserns (openUserns env netns userns onlyUserns) := by
  cases userns with
  | none => exact enterUserns_enters
  | some path =>
    exact .bind fun _ => .ite (Fails.bind fun _ => nsenterFail_fails).enters enterUserns_enters

theorem openNetns_enters : Enters userns onlyUserns (openNetns env netns userns onlyUserns) := by
  cases netns with
  | none => exact openUserns_enters
  | some path =>
    exact .bind fun _ => .ite (Fails.bind fun _ => nsenterFail_fails).enters openUserns_enters

theorem usernsPathOf_enters {targetPid : ℤ} : Enters (usernsAsked targetPid userns) onlyUserns
    (usernsPathOf env targetPid netns userns onlyUserns) := by
  unfold usernsPathOf
  split
  · next h =>
    obtain ⟨rfl, hpid⟩ := h
    rw [usernsAsked_none hpid]
    exact .bind fun _ => .ite openNetns_enters (Fails.bind fun _ => nsenterFail_fails).enters
  · next h =>
    rw [usernsAsked_of_not h]
    exact openNetns_enters

/-- **`nsenter` succeeds only after a call of `setns` for the user namespace asked for.** -/
theorem nsenter_enters {targetPid : ℤ} : Enters (usernsAsked targetPid userns) onlyUserns
    (nsenter env targetPid netns userns onlyUserns) := by
  unfold nsenter
  cases onlyUserns with
  | true => exact usernsPathOf_enters
  | false =>
    show Enters _ false (if netns = none then _ else _)
    refine .ite (.bind fun _ => ?_) usernsPathOf_enters
    exact .ite usernsPathOf_enters (Fails.bind fun _ => nsenterFail_fails).enters

end

/-! ## The child -/

/-- The request and the result of an `ioctl`. -/
def Sys.ioctl? : Sys → Option (Ioctl × ℤ)
  | ioctl request rc => some (request, rc)
  | _ => none

/-- Calls that send nothing and configure nothing. -/
def Sys.Quiet (c : Sys) : Prop := c.sent? = none ∧ c.ioctl? = none

theorem NsCall.quiet {netns userns : Option Bytes} {c : Sys} (h : NsCall netns userns c) :
    c.Quiet := by
  cases c <;> first
    | exact ⟨rfl, rfl⟩
    | exact h.elim

/-- What was sent and requested so far. -/
def Logged (sent : List ℤ) (requests : List (Ioctl × ℤ)) (es : List Sys) : Prop :=
  es.filterMap Sys.sent? = sent ∧ es.filterMap Sys.ioctl? = requests

section
variable {sent : List ℤ} {requests : List (Ioctl × ℤ)} {es : List Sys} {c : Sys} {α : Type}
  {p : SysProg α}

theorem Logged.snoc (h : Logged sent requests es) (c : Sys) :
    Logged (sent ++ c.sent?.toList) (requests ++ c.ioctl?.toList) (es ++ [c]) := by
  constructor
  · rw [List.filterMap_append, h.1]
    cases hc : c.sent? <;> simp [hc]
  · rw [List.filterMap_append, h.2]
    cases hc : c.ioctl? <;> simp [hc]

theorem Logged.snoc_quiet (h : Logged sent requests es) (hc : c.Quiet) :
    Logged sent requests (es ++ [c]) := by
  have := h.snoc c
  rwa [hc.1, hc.2, Option.toList_none, Option.toList_none, List.append_nil, List.append_nil] at this

/-- Code with quiet calls changes nothing of it. -/
theorem logged_triple (hp : p.AllCalls Sys.Quiet) :
    Prog.Triple (fun es _ => Logged sent requests es) p (fun _ es _ => Logged sent requests es)
      fun _ _ _ => True :=
  (Prog.Triple.of_allCalls hp fun _ _ he h => h.snoc_quiet he).conseq_stop fun why => why.elim

theorem openTap_quiet (env : ChildEnv) (tapname : Option Bytes) :
    (openTap env tapname).AllCalls Sys.Quiet := by
  cases tapname with
  | none => exact .bind (.call ⟨rfl, rfl⟩) fun _ => .pure _
  | some tapname =>
    refine .bind (.call ⟨rfl, rfl⟩) fun _ => .ite (.bind (.call ⟨rfl, rfl⟩) fun _ => .pure _) ?_
    refine .bind (.call ⟨rfl, rfl⟩) fun _ => .ite ?_ (.pure _)
    exact .bind (.call ⟨rfl, rfl⟩) fun _ => .bind (.call ⟨rfl, rfl⟩) fun _ => .pure _

/-- All of these requests were made, in order and with success. -/
def Succeeded (asked : List Ioctl) (requests : List (Ioctl × ℤ)) : Prop :=
  requests.map Prod.fst = asked ∧ ∀ r ∈ requests, 0 ≤ r.2

theorem Succeeded.nil : Succeeded [] [] := ⟨rfl, fun _ h => absurd h List.not_mem_nil⟩

/-- Code that, when it returns nonnegative, has made all of these requests. -/
def Requests (asked : List Ioctl) (p : SysProg ℤ) : Prop :=
  ∀ sent requests, Prog.Triple (fun es _ => Logged sent requests es) p
    (fun rc es _ => 0 ≤ rc → ∃ made, Succeeded asked made ∧ Logged sent (requests ++ made) es)
    fun _ _ _ => True

theorem Requests.pure (rc : ℤ) : Requests [] (pure rc) := fun _ _ =>
  .pure fun _ _ h _ => ⟨[], .nil, by rwa [List.append_nil]⟩

theorem ioctls_requests (env : ChildEnv) (i : ℕ) (asked : List Ioctl) :
    Requests asked (ioctls env i asked) := by
  intro sent requests
  induction asked generalizing i requests with
  | nil => exact Requests.pure 0 sent requests
  | cons request asked ih =>
    refine .bind (Q := fun _ es _ => Logged sent (requests ++ [(request, env.ioctl i)]) es)
      (.call fun es _ h => ?_) fun _ => .ite (fun _ => ?_) fun hneg => ?_
    · have hlog := h.snoc (.ioctl request (env.ioctl i))
      rwa [show (Sys.ioctl request (env.ioctl i)).sent?.toList = [] from rfl,
        List.append_nil] at hlog
    · exact (Fails.bind fun _ => .error (by decide)).triple
    · refine (ih (i + 1) _).conseq (fun _ _ h => h) fun rc es _ h hge => ?_
      obtain ⟨made, ⟨hfst, hall⟩, hlog⟩ := h hge
      rw [List.append_assoc] at hlog
      refine ⟨_, ⟨by rw [List.singleton_append, List.map_cons, hfst], ?_⟩, hlog⟩
      exact List.forall_mem_cons.2 ⟨Int.not_lt.1 hneg, hall⟩

theorem configureNetwork_requests (env : ChildEnv) (tapname : Bytes) (cfg : Config) :
    Requests (networkRequests tapname cfg) (configureNetwork env tapname cfg) := by
  intro sent requests
  refine .bind (logged_triple (.call ⟨rfl, rfl⟩)) fun _ => .ite (fun _ => ?_) fun _ => ?_
  · exact (Fails.bind fun _ => .error (by decide)).triple
  · refine .bind (ioctls_requests env 0 _ sent requests) fun rc => .bind (.call ?_) fun _ =>
      .pure fun _ _ h => h
    intro es _ h hge
    obtain ⟨made, hmade, hlog⟩ := h hge
    exact ⟨made, hmade, hlog.snoc_quiet ⟨rfl, rfl⟩⟩

/-- The requests that the options ask for. -/
def askedRequests (o : Options) (cfg : Config) : List Ioctl :=
  if o.doConfigNetwork then networkRequests (o.tapname.getD []) cfg else []

theorem configureStep_requests (env : ChildEnv) (o : Options) (cfg : Config) :
    Requests (askedRequests o cfg) (configureStep env o cfg) := by
  unfold configureStep askedRequests
  split
  · exact configureNetwork_requests env _ cfg
  · exact .pure 0

/-- Code that, when it returns nonnegative, has sent exactly one descriptor. -/
def Sends (p : SysProg ℤ) : Prop :=
  ∀ requests, Prog.Triple (fun es _ => Logged [] requests es) p
    (fun rc es _ => 0 ≤ rc → ∃ fd, Logged [fd] requests es) fun _ _ _ => True

theorem Fails.sends {p : SysProg ℤ} (h : Fails p) : Sends p := fun _ => h.triple

theorem Sends.quiet_bind {p : SysProg α} {q : α → SysProg ℤ} (hp : p.AllCalls Sys.Quiet)
    (hq : ∀ a, Sends (q a)) : Sends (p >>= q) :=
  fun requests => .bind (logged_triple hp) fun a => hq a requests

theorem Sends.ite {c : Prop} [Decidable c] {p q : SysProg ℤ} (hp : c → Sends p)
    (hq : ¬ c → Sends q) : Sends (if c then p else q) :=
  fun requests => .ite (fun h => hp h requests) fun h => hq h requests

theorem sendfd_sends (env : ChildEnv) (fd : ℤ) : Sends (sendfd env fd) := by
  intro requests
  refine .bind (Q := fun _ es _ => env.sendmsg = true → ∃ fd, Logged [fd] requests es) (.call ?_)
    fun _ => .ite (fun h => .pure fun _ _ hlog _ => hlog h) fun _ => ?_
  · intro es _ h hsent
    have hlog := h.snoc (.sendmsg fd env.sendmsg)
    rw [hsent] at hlog ⊢
    rw [show (Sys.sendmsg fd true).ioctl?.toList = [] from rfl, List.append_nil] at hlog
    exact ⟨fd, hlog⟩
  · exact (Fails.bind fun _ => .error (by decide)).triple

/-- After `sendfd` the child fails, or goes on with quiet calls. -/
theorem Sends.sendfd_bind {env : ChildEnv} {fd : ℤ} {fail q : SysProg ℤ} (hfail : Fails fail)
    (hq : q.AllCalls Sys.Quiet) :
    Sends (sendfd env fd >>= fun rc => if rc < 0 then fail else q) := by
  intro requests
  refine .bind (sendfd_sends env fd requests) fun rc => .ite (fun _ => hfail.triple) fun hge => ?_
  refine .conseq (P := fun es _ => ∃ fd, Logged [fd] requests es) (.of_exists fun fd => ?_)
    (fun es s h => h (Int.not_lt.1 hge)) fun _ _ _ h _ => h
  exact (logged_triple hq).conseq (fun _ _ h => h) fun _ _ _ h => ⟨fd, h⟩

theorem sendTap_sends (env : ChildEnv) (sock : ℤ) (o : Options) (tapfd : ℤ) :
    Sends (sendTap env sock o tapfd) := by
  refine .sendfd_bind (.bind fun _ => .bind fun _ => .error (by decide)) ?_
  exact .bind (.call ⟨rfl, rfl⟩) fun _ => .bind (.call ⟨rfl, rfl⟩) fun _ =>
    .bind (.call ⟨rfl, rfl⟩) fun _ => .pure _

theorem bessError_fails {sock acceptfd listenfd : ℤ} : Fails (bessError sock acceptfd listenfd) :=
  .bind fun _ => .bind fun _ => .bind fun _ => .error (by decide)

/-- The label `error`, after a message. -/
theorem Sends.bess_error {sock acceptfd listenfd : ℤ} :
    Sends (p >>= fun _ => bessError sock acceptfd listenfd) :=
  (Fails.bind fun _ => bessError_fails).sends

theorem bessAccept_sends (env : ChildEnv) (sock : ℤ) (path : Bytes) :
    Sends (bessAccept env sock path) := by
  refine .quiet_bind (.call ⟨rfl, rfl⟩) fun _ => .quiet_bind (.call ⟨rfl, rfl⟩) fun _ =>
    .ite (fun _ => .bess_error) fun _ => .sendfd_bind bessError_fails ?_
  exact .bind (.call ⟨rfl, rfl⟩) fun _ => .bind (.call ⟨rfl, rfl⟩) fun _ =>
    .bind (.call ⟨rfl, rfl⟩) fun _ => .pure _

theorem bessListen_sends (env : ChildEnv) (sock : ℤ) (path : Bytes) :
    Sends (bessListen env sock path) := by
  refine .quiet_bind (.call ⟨rfl, rfl⟩) fun _ => .quiet_bind (.call ⟨rfl, rfl⟩) fun _ =>
    .ite (fun _ => .bess_error) fun _ => ?_
  exact .quiet_bind (.call ⟨rfl, rfl⟩) fun _ => .ite (fun _ => .bess_error) fun _ =>
    bessAccept_sends env sock path

theorem childBess_sends (env : ChildEnv) (sock : ℤ) (bessSocket : Option Bytes) :
    Sends (childBess env sock bessSocket) := by
  refine .quiet_bind (.call ⟨rfl, rfl⟩) fun _ => .ite (fun _ => .bess_error) fun _ => ?_
  cases bessSocket with
  | none => exact .bess_error
  | some path => exact .ite (fun _ => .bess_error) fun _ => bessListen_sends env sock path

end

/-- A run that has made the requests of the options and sent one descriptor. -/
def Delivered (o : Options) (cfg : Config) (fd : ℤ) (calls : List Sys) : Prop :=
  ∃ made, Succeeded (askedRequests o cfg) made ∧ Logged [fd] made calls

theorem child_delivers (env : ChildEnv) (sock : ℤ) (o : Options) (cfg : Config) :
    Prog.Triple (fun es _ => Logged [] [] es) (child env sock o cfg)
      (fun rc es _ => 0 ≤ rc → ∃ fd, Delivered o cfg fd es) fun _ _ _ => True := by
  refine .bind (logged_triple fun s e he => (nsenter_calls s e he).quiet) fun rc =>
    .ite (fun hneg => (Fails.error hneg).triple) fun _ => ?_
  refine .bind (logged_triple (openTap_quiet env o.tapname)) fun tapfd =>
    .ite (fun hneg => (Fails.error hneg).triple) fun _ => ?_
  refine .bind (configureStep_requests env o cfg [] []) fun rc =>
    .ite (fun _ => (Fails.bind fun _ => .error (by decide)).triple) fun hge => ?_
  refine .conseq (.of_exists fun made => .fact fun hmade => ?_)
    (fun es s h => h (Int.not_lt.1 hge)) fun _ _ _ h => h
  refine (sendTap_sends env sock o tapfd made).conseq (fun _ _ h => h) fun rc es s h hrc => ?_
  obtain ⟨fd, hfd⟩ := h hrc
  exact ⟨fd, made, hmade, hfd⟩

/-- **A child that returns nonnegative has made all the requests asked for and has sent exactly
    one descriptor.** -/
theorem childProcess_delivers (env : ChildEnv) (sock : ℤ) {o : Options} (cfg : Config)
    (hbess : o.targetType = some (bytes "bess") → o.doConfigNetwork = false)
    (hret : 0 ≤ ((childProcess env sock o cfg).run ()).value) :
    ∃ fd, Delivered o cfg fd ((childProcess env sock o cfg).run ()).calls := by
  have hinit : Logged [] [] [] := ⟨rfl, rfl⟩
  by_cases h : o.targetType = some (bytes "bess")
  · rw [childProcess, if_pos h] at hret ⊢
    obtain ⟨fd, hfd⟩ := (childBess_sends env sock o.bessSocket []).value hinit hret
    have hasked : askedRequests o cfg = [] := by rw [askedRequests, hbess h]; rfl
    exact ⟨fd, [], by rw [hasked]; exact .nil, hfd⟩
  · rw [childProcess, if_neg h] at hret ⊢
    exact (child_delivers env sock o cfg).value hinit hret

/-! ## What both processes have done -/

/-- A call of the child. -/
def MainAct.child? : MainAct → Option Sys
  | child c => some c
  | _ => none

/-- The calls of the child. -/
def childCalls (es : List MainAct) : List Sys := es.filterMap MainAct.child?

/-- The queue of the socket pair after one more call. -/
def queueStep (queue : List ℤ) : MainAct → List ℤ
  | .child c => queue ++ c.sent?.toList
  | .recvmsg .failed => queue
  | .recvmsg _ => queue.tail
  | _ => queue

/-- The messages in the queue. -/
def queued (es : List MainAct) : List ℤ := es.foldl queueStep []

theorem queued_snoc (es : List MainAct) (e : MainAct) :
    queued (es ++ [e]) = queueStep (queued es) e := by
  simp [queued]

theorem childCalls_snoc (es : List MainAct) (e : MainAct) :
    childCalls (es ++ [e]) = childCalls es ++ e.child?.toList := by
  rw [childCalls, List.filterMap_append]
  cases h : e.child? <;> simp [h, childCalls]

variable {L : Libslirp}

/-- The child has run to its end, with status 0. -/
structure ChildDone (env : MainEnv L) (o : Options) (cfg : Config) (es : List MainAct) : Prop where
  status : .waitpid (.exited 0) ∈ es
  calls : childCalls es = (childRun env o cfg).calls
  value : 0 ≤ (childRun env o cfg).value

/-- The descriptor is the one given, or the one received from the child. -/
inductive HandedOver (env : MainEnv L) (o : Options) (cfg : Config) (es : List MainAct) : ℤ → Prop
  | given (htapfd : 0 ≤ o.tapfd) (halone : ∀ ok, .fork ok ∉ es) : HandedOver env o cfg es o.tapfd
  | received {fd : ℕ} {sent : ℤ} (htapfd : o.tapfd < 0) (hdone : ChildDone env o cfg es)
      (hrecv : .recvmsg (.fd fd sent) ∈ es) (hsent : sent ∈ (childCalls es).filterMap Sys.sent?) :
      HandedOver env o cfg es fd

/-- What the acts of both processes depend on. -/
def MainLaw (env : MainEnv L) (o : Options) (cfg : Config) (es : List MainAct) : MainAct → Prop
  | .socketpair ok => ok = env.socketpair
  | .fork _ => o.tapfd < 0
  | .child c => o.tapfd < 0 ∧ c ∈ (childRun env o cfg).calls
  | .recvfd => ChildDone env o cfg es ∧ queued es = (childCalls es).filterMap Sys.sent?
  | .parent fd => HandedOver env o cfg es fd
  | .doSlirp fd => HandedOver env o cfg es fd
  | .sys (.openNs type path fd) => NsCall none (usernsAsked o.targetPid none) (.openNs type path fd)
  | .sys (.setns type path rc) => NsCall none (usernsAsked o.targetPid none) (.setns type path rc)
  | .sys (.setegid _) => (∃ fd, HandedOver env o cfg es fd) ∧
      ∀ path, usernsAsked o.targetPid none = some path →
        ∃ rc ≥ 0, .sys (.setns .user path rc) ∈ es
  | _ => True

/-- The status with which the process ends, if it ends by itself. -/
def MainEnd.status? : MainEnd → Option ℕ
  | exit status => some status
  | slirp (.stop .exitFailure) => some 1
  | _ => none

/-- `do_slirp` has returned after an event of the exit descriptor. -/
def ExitFd (C : Libc) (env : MainEnv L) (o : Options) (cfg : Config) (es : List MainAct) : Prop :=
  ∃ fd ret, .doSlirp fd ∈ es ∧
    ((doSlirp C (slirpArgs o cfg fd) env.startup env.ticks).run (.init env.slirp)).out = .ret ret ∧
    ∃ before tick after s, env.ticks = before ++ tick :: after ∧
      AtHead C (slirpArgs o cfg fd) env.startup env.slirp before s ∧
      ((turn C tick).run s).out = .ret (some ret) ∧ ExitEvent (slirpArgs o cfg fd) tick

/-- How the process may end. -/
structure MainEnds (C : Libc) (env : MainEnv L) (o : Options) (cfg : Config) (why : MainEnd)
    (es : List MainAct) : Prop where
  law : Always (MainLaw env o cfg) es
  notBlocked : why ≠ .blocked
  exitFd : why.status? = some 0 → ExitFd C env o cfg es

/-! ## The parent -/

/-- A run that has kept to the law and has this descriptor. -/
structure Handed (env : MainEnv L) (o : Options) (cfg : Config) (fd : ℤ) (es : List MainAct) :
    Prop where
  law : Always (MainLaw env o cfg) es
  handedOver : HandedOver env o cfg es fd

section
variable {C : Libc} {env : MainEnv L} {o : Options} {cfg : Config} {fd : ℤ} {es : List MainAct}
  {e : MainAct} {α : Type}

theorem ChildDone.snoc (h : ChildDone env o cfg es) (he : e.child? = none) :
    ChildDone env o cfg (es ++ [e]) where
  status := List.mem_append_left _ h.status
  calls := by rw [childCalls_snoc, he, Option.toList_none, List.append_nil, h.calls]
  value := h.value

theorem HandedOver.snoc (h : HandedOver env o cfg es fd) (he : e.child? = none)
    (hfork : ∀ ok, e ≠ .fork ok) : HandedOver env o cfg (es ++ [e]) fd := by
  cases h with
  | given htapfd halone =>
    refine .given htapfd fun ok hmem => ?_
    rcases List.mem_append.1 hmem with hmem | hmem
    · exact halone ok hmem
    · exact hfork ok (List.mem_singleton.1 hmem).symm
  | received htapfd hdone hrecv hsent =>
    have hdone' := hdone.snoc he
    refine .received htapfd hdone' (List.mem_append_left _ hrecv) ?_
    rwa [hdone'.calls, ← hdone.calls]

theorem Handed.snoc (h : Handed env o cfg fd es) (he : e.child? = none)
    (hfork : ∀ ok, e ≠ .fork ok) (hlaw : MainLaw env o cfg es e) :
    Handed env o cfg fd (es ++ [e]) :=
  ⟨h.law.snoc hlaw, h.handedOver.snoc he hfork⟩

theorem Handed.append {fs : List MainAct} (h : Handed env o cfg fd es)
    (hfs : ∀ e ∈ fs, e.child? = none ∧ (∀ ok, e ≠ .fork ok) ∧ ∀ es, MainLaw env o cfg es e) :
    Handed env o cfg fd (es ++ fs) := by
  induction fs generalizing es with
  | nil => rwa [List.append_nil]
  | cons e fs ih =>
    obtain ⟨⟨he, hfork, hlaw⟩, hfs⟩ := List.forall_mem_cons.1 hfs
    have := ih (h.snoc he hfork (hlaw es)) hfs
    rwa [List.append_assoc] at this

theorem sys_handed {c : Sys} {E : MainEnd → List MainAct → Unit → Prop}
    (hlaw : ∀ es, MainLaw env o cfg es (.sys c)) :
    Prog.Triple (fun es _ => Handed env o cfg fd es) (sys c)
      (fun _ es _ => Handed env o cfg fd es) E :=
  .call fun es _ h => h.snoc rfl nofun (hlaw es)

theorem onSys_run (p : SysProg α) (s : Unit) :
    (onSys p).run s = ⟨.ret (p.run ()).value, (), (p.run ()).calls.map .sys⟩ := by
  have hout := (p.run ()).out_eq_value
  simp only [onSys, Prog.lift, id_eq, hout]

theorem onSys_handed {p : SysProg α} {E : MainEnd → List MainAct → Unit → Prop}
    (hp : p.AllCalls fun c => ∀ es, MainLaw env o cfg es (.sys c)) :
    Prog.Triple (fun es _ => Handed env o cfg fd es) (onSys p)
      (fun _ es _ => Handed env o cfg fd es) E := by
  intro es s h
  rw [onSys_run]
  refine h.append fun e he => ?_
  obtain ⟨c, hc, rfl⟩ := List.mem_map.1 he
  exact ⟨rfl, nofun, hp () c hc⟩

theorem NsCall.law {c : Sys} (h : NsCall none (usernsAsked o.targetPid none) c)
    (es : List MainAct) : MainLaw env o cfg es (.sys c) := by
  cases c <;> first
    | exact trivial
    | exact h
    | exact h.elim

/-- The parent has entered the user namespace of the target. -/
def Entered (o : Options) (es : List MainAct) : Prop :=
  ∀ path, usernsAsked o.targetPid none = some path → ∃ rc ≥ 0, .sys (.setns .user path rc) ∈ es

theorem enterTarget_handed {E : MainEnd → List MainAct → Unit → Prop} :
    Prog.Triple (fun es _ => Handed env o cfg fd es) (enterTarget env o.targetPid fd)
      (fun _ es _ => Handed env o cfg fd es) E := by
  have hns : Prog.Triple (fun es _ => Handed env o cfg fd es)
      (onSys (nsenter env.nsenter o.targetPid none none true))
      (fun rc es _ => Handed env o cfg fd es ∧ (0 ≤ rc → Entered o es)) E := by
    intro es s h
    have hcalls := @nsenter_calls env.nsenter none none true o.targetPid
    have hhanded := onSys_handed (E := E) (fun s c hc => (hcalls s c hc).law) es s h
    rw [onSys_run] at hhanded ⊢
    refine ⟨hhanded, fun hge path hpath => ?_⟩
    have henters := @nsenter_enters env.nsenter none none true o.targetPid
    obtain ⟨rc, hmem, hrc⟩ := @Prog.Triple.value _ _ _ _ _ _ _ henters [] () trivial hge path hpath
    exact ⟨rc, hrc rfl, List.mem_append_right _ (List.mem_map_of_mem hmem)⟩
  refine .bind hns fun rc => .ite (fun _ => ?_) fun hge => ?_
  · refine .bind (Q := fun _ es _ => Handed env o cfg fd es) (.call fun es _ h => ?_) fun _ =>
      .pure fun _ _ h => h
    exact h.1.snoc rfl nofun trivial
  · refine .bind (Q := fun _ es _ => Handed env o cfg fd es) (.call fun es _ h => ?_) fun _ =>
      .ite (fun _ => ?_) fun _ => ?_
    · exact h.1.snoc rfl nofun ⟨⟨fd, h.1.handedOver⟩, h.2 (Int.not_lt.1 hge)⟩
    · exact .bind (sys_handed fun _ => trivial) fun _ =>
        .bind (sys_handed fun _ => trivial) fun _ => .pure fun _ _ h => h
    · refine .bind (sys_handed fun _ => trivial) fun _ => .ite (fun _ => ?_) fun _ =>
        .pure fun _ _ h => h
      exact .bind (sys_handed fun _ => trivial) fun _ =>
        .bind (sys_handed fun _ => trivial) fun _ => .pure fun _ _ h => h

theorem prepareSandbox_handed {E : MainEnd → List MainAct → Unit → Prop} :
    Prog.Triple (fun es _ => Handed env o cfg fd es) (prepareSandbox env cfg o.targetPid fd)
      (fun _ es _ => Handed env o cfg fd es) E := by
  refine .ite (fun _ => ?_) fun _ => .pure fun _ _ h => h
  exact .bind (sys_handed fun _ => trivial) fun _ =>
    .ite (fun _ => enterTarget_handed) fun _ => .pure fun _ _ h => h

/-- The value `rc` of a function of the parent stands for a loop that was left by the exit
    descriptor. -/
def Served (C : Libc) (env : MainEnv L) (o : Options) (cfg : Config) (fd rc : ℤ)
    (es : List MainAct) : Prop :=
  Handed env o cfg fd es ∧ (0 ≤ rc → ExitFd C env o cfg es)

/-- What `do_slirp` does is no step of the handover. -/
theorem Handed.slirp (h : Handed env o cfg fd es) (acts : List Act) :
    Handed env o cfg fd (es ++ acts.map .slirp) := by
  refine h.append fun e he => ?_
  obtain ⟨a, -, rfl⟩ := List.mem_map.1 he
  exact ⟨rfl, nofun, fun _ => trivial⟩

theorem runDoSlirp_served :
    Prog.Triple (fun es _ => Handed env o cfg fd es ∧ .doSlirp fd ∈ es)
    (runDoSlirp C env (slirpArgs o cfg fd)) (fun rc es _ => Served C env o cfg fd rc es)
    fun why es _ => MainEnds C env o cfg why es := by
  intro es s h
  simp only [runDoSlirp, Prog.lift]
  rcases hrun : (doSlirp C (slirpArgs o cfg fd) env.startup env.ticks).run (.init env.slirp)
    with ⟨ret | why, s', acts⟩
  · refine ⟨h.1.slirp acts, fun hge => ⟨fd, ret, List.mem_append_left _ h.2, ?_, ?_⟩⟩
    · rw [hrun]
    · exact doSlirp_nonneg (by rw [hrun]) hge
  · refine ⟨(h.1.slirp acts).law, fun hblocked => (by cases hblocked), ?_⟩
    rcases why with (_ | _ | _ | _) | _ <;> exact fun h => by cases h

theorem parentServe_served :
    Prog.Triple (fun es _ => Handed env o cfg fd es) (parentServe C env o cfg fd)
    (fun rc es _ => Served C env o cfg fd rc es) fun why es _ => MainEnds C env o cfg why es := by
  refine .bind (Q := fun _ es _ => Handed env o cfg fd es ∧ .doSlirp fd ∈ es)
    (.call fun es _ h => ?_) fun _ =>
    .bind (Q := fun rc es _ => Served C env o cfg fd rc es) runDoSlirp_served fun rc =>
    .ite (fun hneg => ?_) fun hge => .pure fun es _ h => ⟨h.1, fun _ => h.2 (Int.not_lt.1 hge)⟩
  · exact ⟨h.snoc rfl nofun h.handedOver, List.mem_append_right _ (List.mem_singleton_self _)⟩
  · refine .bind (Q := fun _ es _ => Handed env o cfg fd es) (.call fun es _ h => ?_) fun _ =>
      .bind (sys_handed fun _ => trivial) fun _ => .pure fun _ _ h => ?_
    · exact h.1.snoc rfl nofun trivial
    · exact ⟨h, fun hge => absurd hge (Int.not_le.2 hneg)⟩

theorem parent_served : Prog.Triple (fun es _ => Handed env o cfg fd es) (parent C env o cfg fd)
    (fun rc es _ => Served C env o cfg fd rc es) fun why es _ => MainEnds C env o cfg why es := by
  refine .bind (Q := fun _ es _ => Handed env o cfg fd es) (.call fun es _ h => ?_) fun _ =>
    .bind (Q := fun _ es _ => Handed env o cfg fd es) (.callAll fun es _ h => ?_) fun _ =>
    .bind prepareSandbox_handed fun rc => .ite (fun hneg => ?_) fun _ => parentServe_served
  · exact h.snoc rfl nofun h.handedOver
  · refine h.append fun e he => ?_
    obtain ⟨text, -, rfl⟩ := List.mem_map.1 he
    exact ⟨rfl, nofun, fun _ => trivial⟩
  · exact .pure fun _ _ h => ⟨h, fun hge => absurd hge (Int.not_le.2 hneg)⟩

/-- Code from which the process does not return. -/
def Exits (C : Libc) (env : MainEnv L) (o : Options) (cfg : Config) (P : List MainAct → Prop)
    (p : MainProg Unit) : Prop :=
  Prog.Triple (fun es _ => P es) p (fun _ _ _ => False) fun why es _ => MainEnds C env o cfg why es

/-- A message and a nonzero status. -/
theorem exits_failure {P : List MainAct → Prop} {c : Sys} {status : ℕ} (hstatus : status ≠ 0)
    (hP : ∀ es, P es → Always (MainLaw env o cfg) es)
    (hlaw : ∀ es, MainLaw env o cfg es (.sys c)) :
    Exits C env o cfg P (sys c >>= fun _ => exitWith status) := by
  refine .bind (Q := fun _ es _ => Always (MainLaw env o cfg) es) (.call fun es _ h => ?_)
    fun _ => .stop fun es _ h => ⟨h, nofun, fun hzero => ?_⟩
  · exact (hP es h).snoc (hlaw es)
  · exact absurd (Option.some.inj hzero) hstatus

theorem finish_exits : Exits C env o cfg (Handed env o cfg fd) (finish C env o cfg fd) := by
  refine .bind parent_served fun rc => .ite (fun _ => ?_) fun hge => ?_
  · exact exits_failure (by decide) (fun _ h => h.1.law) fun _ => trivial
  · exact .stop fun es _ h => ⟨h.1.law, nofun, fun _ => h.2 (Int.not_lt.1 hge)⟩

/-! ## Waiting for the child -/

/-- The parent waits, and the child has made the calls `done`. -/
structure Waiting (env : MainEnv L) (o : Options) (cfg : Config) (done : List Sys)
    (es : List MainAct) : Prop where
  tapfd : o.tapfd < 0
  law : Always (MainLaw env o cfg) es
  calls : childCalls es = done
  queued : queued es = done.filterMap Sys.sent?

variable {done left : List Sys}

theorem Waiting.snoc (h : Waiting env o cfg done es) (he : e.child? = none)
    (hqueue : ∀ queue, queueStep queue e = queue) (hlaw : MainLaw env o cfg es e) :
    Waiting env o cfg done (es ++ [e]) where
  tapfd := h.tapfd
  law := h.law.snoc hlaw
  calls := by rw [childCalls_snoc, he, Option.toList_none, List.append_nil, h.calls]
  queued := by rw [queued_snoc, hqueue, h.queued]

theorem Waiting.snoc_child {c : Sys} (h : Waiting env o cfg done es)
    (hc : c ∈ (childRun env o cfg).calls) :
    Waiting env o cfg (done ++ [c]) (es ++ [.child c]) where
  tapfd := h.tapfd
  law := h.law.snoc ⟨h.tapfd, hc⟩
  calls := by rw [childCalls_snoc, h.calls]; rfl
  queued := by
    rw [queued_snoc, h.queued, List.filterMap_append]
    cases hsent : c.sent? <;> simp [queueStep, hsent]

/-- The child makes some more of its calls. -/
theorem Waiting.append_child {cs : List Sys} (h : Waiting env o cfg done es)
    (hcs : ∀ c ∈ cs, c ∈ (childRun env o cfg).calls) :
    Waiting env o cfg (done ++ cs) (es ++ cs.map .child) := by
  induction cs generalizing done es with
  | nil => simpa using h
  | cons c cs ih =>
    obtain ⟨hc, hcs⟩ := List.forall_mem_cons.1 hcs
    have := ih (h.snoc_child hc) hcs
    rwa [List.append_assoc, List.append_assoc] at this

/-- The calls of the child are those made and those left. -/
def Parted (env : MainEnv L) (o : Options) (cfg : Config) (left : List Sys) (es : List MainAct) :
    Prop := ∃ done, done ++ left = (childRun env o cfg).calls ∧ Waiting env o cfg done es

theorem Parted.take (h : Parted env o cfg left es) (n : ℕ) :
    Parted env o cfg (left.drop n) (es ++ (left.take n).map .child) := by
  obtain ⟨done, hdone, h⟩ := h
  refine ⟨done ++ left.take n, ?_, h.append_child fun c hc => ?_⟩
  · rw [List.append_assoc, List.take_append_drop, hdone]
  · rw [← hdone]
    exact List.mem_append_right _ (List.mem_of_mem_take hc)

theorem Parted.snoc (h : Parted env o cfg left es) (he : e.child? = none)
    (hqueue : ∀ queue, queueStep queue e = queue) (hlaw : MainLaw env o cfg es e) :
    Parted env o cfg left (es ++ [e]) := by
  obtain ⟨done, hdone, h⟩ := h
  exact ⟨done, hdone, h.snoc he hqueue hlaw⟩

theorem waitEintrs_parted (eintrs : List ℕ) (left : List Sys)
    {E : MainEnd → List MainAct → Unit → Prop} :
    Prog.Triple (fun es _ => Parted env o cfg left es) (waitEintrs eintrs left)
      (fun left' es _ => Parted env o cfg left' es) E := by
  induction eintrs generalizing left with
  | nil => exact .pure fun _ _ h => h
  | cons n eintrs ih =>
    refine .bind (Q := fun _ es _ => Parted env o cfg (left.drop n) es)
      (.callAll fun es _ h => h.take n) fun _ => ?_
    refine .bind (Q := fun _ es _ => Parted env o cfg (left.drop n) es)
      (.call fun es _ h => h.snoc rfl (fun _ => rfl) trivial) fun _ => ih _

/-- What holds after an answer of `waitpid`. -/
def Waited (env : MainEnv L) (o : Options) (cfg : Config) (r : WaitResult) (es : List MainAct) :
    Prop :=
  Always (MainLaw env o cfg) es ∧ (r = .exited 0 → ChildDone env o cfg es ∧
    queued es = (childCalls es).filterMap Sys.sent?)

theorem waitChild_waited (wait : Wait) :
    Prog.Triple (fun es _ => Waiting env o cfg [] es)
      (waitChild wait (childRun env o cfg).calls (childStatus (childRun env o cfg).value))
      (fun r es _ => Waited env o cfg r es) fun why es _ => MainEnds C env o cfg why es := by
  refine .bind ((waitEintrs_parted wait.eintrs _).conseq
    (fun es _ h => ⟨[], rfl, h⟩) fun _ _ _ h => h) fun left => ?_
  -- an answer that is not the end of the child
  have hother (r : WaitResult) (hr : r ≠ .exited 0) :
      Prog.Triple (fun es _ => Always (MainLaw env o cfg) es)
        (do Prog.call (.waitpid r); return r : MainProg WaitResult)
        (fun r es _ => Waited env o cfg r es) fun why es _ => MainEnds C env o cfg why es :=
    .bind (Q := fun _ es _ => Always (MainLaw env o cfg) es) (.call fun es _ h => h.snoc trivial)
      fun _ => .pure fun es _ h => ⟨h, fun h => absurd h hr⟩
  have hpart (n : ℕ) : Prog.Triple (fun es _ => Parted env o cfg left es)
      (Prog.callAll ((left.take n).map MainAct.child) : MainProg Unit)
      (fun _ es _ => Always (MainLaw env o cfg) es)
      fun why es _ => MainEnds C env o cfg why es := by
    refine .callAll fun es _ h => ?_
    obtain ⟨_, -, h⟩ := h.take n
    exact h.law
  cases wait.result with
  | exited =>
    refine .bind (Q := fun _ es _ => Waiting env o cfg (childRun env o cfg).calls es)
      (.callAll fun es _ h => ?_) fun _ =>
      .bind (Q := fun _ es _ => Waiting env o cfg (childRun env o cfg).calls es ∧
        .waitpid (.exited (childStatus (childRun env o cfg).value)) ∈ es)
      (.call fun es _ h => ?_) fun _ => .pure fun es _ h => ⟨h.1.law, fun hzero => ?_⟩
    · obtain ⟨done, hdone, h⟩ := h
      rw [← hdone]
      refine h.append_child fun c hc => ?_
      rw [← hdone]
      exact List.mem_append_right _ hc
    · exact ⟨h.snoc rfl (fun _ => rfl) trivial, List.mem_append_right _ (by simp)⟩
    · obtain ⟨hwaiting, hmem⟩ := h
      have hvalue : 0 ≤ (childRun env o cfg).value := by
        simp only [WaitResult.exited.injEq, childStatus] at hzero
        by_contra hneg
        rw [if_pos (Int.not_le.1 hneg)] at hzero
        exact absurd hzero (by decide)
      rw [hzero] at hmem
      exact ⟨⟨hmem, hwaiting.calls, hvalue⟩, by rw [hwaiting.queued, hwaiting.calls]⟩
  | killed n wstatus => exact .bind (hpart n) fun _ => hother _ nofun
  | failed n => exact .bind (hpart n) fun _ => hother _ nofun
  | waiting n => exact .bind (hpart n) fun _ => .stop fun es _ h => ⟨h, nofun, nofun⟩

/-- The child has ended with status 0, and its messages are in the queue. -/
structure Receiving (env : MainEnv L) (o : Options) (cfg : Config) (es : List MainAct) : Prop where
  law : Always (MainLaw env o cfg) es
  done : ChildDone env o cfg es
  queued : queued es = (childCalls es).filterMap Sys.sent?

/-- `recvfd` does not block, since the queue is not empty. -/
theorem receive_exits {sent : ℤ} {queue : List ℤ} (htapfd : o.tapfd < 0)
    (hqueue : (childRun env o cfg).calls.filterMap Sys.sent? = sent :: queue) :
    Exits C env o cfg (Receiving env o cfg) (receive C env o cfg (sent :: queue)) := by
  have herror (r : RecvResult) (c : Sys) (hc : ∀ es, MainLaw env o cfg es (.sys c)) :
      Prog.Triple (fun es _ => ChildDone env o cfg es ∧ Always (MainLaw env o cfg) es)
        (do Prog.call (.recvmsg r); sys c; return -1 : MainProg ℤ)
        (fun fd es _ => Always (MainLaw env o cfg) es ∧ (0 ≤ fd → Handed env o cfg fd es))
        fun why es _ => MainEnds C env o cfg why es := by
    refine .bind (Q := fun _ es _ => Always (MainLaw env o cfg) es)
      (.call fun es _ h => h.2.snoc trivial) fun _ =>
      .bind (Q := fun _ es _ => Always (MainLaw env o cfg) es) (.call fun es _ h => h.snoc (hc es))
        fun _ => .pure fun es _ h => ⟨h, fun hge => absurd hge (by decide)⟩
  have hrecv : Prog.Triple (fun es _ => Receiving env o cfg es) (recvfd env.recv (sent :: queue))
      (fun fd es _ => Always (MainLaw env o cfg) es ∧ (0 ≤ fd → Handed env o cfg fd es))
      fun why es _ => MainEnds C env o cfg why es := by
    refine .bind (Q := fun _ es _ => ChildDone env o cfg es ∧ Always (MainLaw env o cfg) es)
      (.call fun es _ h => ⟨h.done.snoc rfl, h.law.snoc ⟨h.done, h.queued⟩⟩) fun _ => ?_
    cases env.recv with
    | failed => exact herror _ _ fun _ => trivial
    | empty => exact herror _ _ fun _ => trivial
    | noFd => exact herror _ _ fun _ => trivial
    | fd fd =>
      refine .bind (Q := fun _ es _ => Handed env o cfg fd es) (.call fun es _ h => ?_) fun _ =>
        .pure fun es _ h => ⟨h.law, fun _ => h⟩
      have hdone := h.1.snoc (e := .recvmsg (.fd fd sent)) rfl
      have hmem : .recvmsg (.fd fd sent) ∈ es ++ [.recvmsg (.fd fd sent)] := by simp
      refine ⟨h.2.snoc trivial, .received htapfd hdone hmem ?_⟩
      rw [hdone.calls, hqueue]
      exact List.mem_cons_self
  refine .bind hrecv fun fd => .ite (fun _ => ?_) fun hge => ?_
  · exact exits_failure (by decide) (fun _ h => h.1) fun _ => trivial
  · refine .bind (Q := fun _ es _ => Handed env o cfg fd es) (.call fun es _ h => ?_) fun _ =>
      .bind (sys_handed fun _ => trivial) fun _ => finish_exits
    exact (h.2 (Int.not_lt.1 hge)).snoc rfl nofun trivial

theorem forkChild_exits (htapfd : o.tapfd < 0)
    (hbess : o.targetType = some (bytes "bess") → o.doConfigNetwork = false) :
    Exits C env o cfg (Waiting env o cfg []) (forkChild C env o cfg) := by
  refine .bind (Q := fun _ es _ => Waiting env o cfg [] es) (.call fun es _ h => ?_) fun _ =>
    .ite (fun _ => ?_) fun _ => ?_
  · exact h.snoc rfl (fun _ => rfl) htapfd
  · refine .bind (waitChild_waited env.wait) fun r => ?_
    cases r with
    | failed => exact exits_failure (by decide) (fun _ h => h.1) fun _ => trivial
    | signaled wstatus => exact exits_failure (by decide) (fun _ h => h.1) fun _ => trivial
    | exited status =>
      refine .ite (fun hne => exits_failure hne (fun _ h => h.1) fun _ => trivial) fun hzero => ?_
      obtain rfl : status = 0 := by simpa using hzero
      intro es s h
      obtain ⟨hdone, hqueued⟩ := h.2 rfl
      -- the queue holds what the child has sent
      obtain ⟨fd, made, -, hsent, -⟩ :=
        childProcess_delivers env.child env.sv.2 cfg hbess hdone.value
      have hqueue : (childRun env o cfg).calls.filterMap Sys.sent? = [fd] := hsent
      have := @receive_exits _ C _ _ _ _ _ htapfd hqueue es s ⟨h.1, hdone, hqueued⟩
      rwa [← hqueue] at this
  · exact exits_failure (by decide) (fun _ h => h.law) fun _ => trivial

/-- **Both processes keep to the law, and the parent ends as it may.** -/
theorem launch_exits (hbess : o.targetType = some (bytes "bess") → o.doConfigNetwork = false) :
    Exits C env o cfg (fun es => es = []) (launch C env o cfg) := by
  refine .bind (Q := fun _ es _ => es = [.socketpair env.socketpair])
    (.call fun es _ h => by rw [h]; rfl) fun _ => .ite (fun _ => ?_) fun _ => ?_
  · refine .ite (fun htapfd => ?_) fun htapfd => ?_
    · refine (forkChild_exits htapfd hbess).conseq ?_ fun _ _ _ h => h
      rintro es _ rfl
      exact ⟨htapfd, Always.nil.snoc rfl, rfl, rfl⟩
    · refine finish_exits.conseq ?_ fun _ _ _ h => h
      rintro es _ rfl
      exact ⟨Always.nil.snoc rfl, .given (Int.not_lt.1 htapfd) (by simp)⟩
  · refine exits_failure (by decide) ?_ fun _ => trivial
    rintro es rfl
    exact Always.nil.snoc rfl

end

/-! ## main -/

/-- **The law of the handover.** -/
def Handover (env : MainEnv L) (o : Options) (before : List MainAct) : MainAct → Prop
  | .recvfd => .waitpid (.exited 0) ∈ before ∧ ∃ sent, queued before = [sent]
  | .parent fd => TapFd fd
  | .doSlirp fd => TapFd fd
  | _ => True
where
  /-- `parent` and `do_slirp` get a descriptor that was given or that was received. -/
  TapFd (fd : ℤ) : Prop :=
    (0 ≤ o.tapfd ∧ fd = o.tapfd ∧ ∀ ok, .fork ok ∉ before) ∨
    ∃ (n : ℕ) (sent : ℤ) (cfg : Config), fd = n ∧ .recvmsg (.fd n sent) ∈ before ∧
      configFromOptions env.config o env.stack = .ok cfg ∧
      Delivered o cfg sent (childCalls before)

section
variable {C : Libc} {env : MainEnv L} {o : Options} {cfg : Config} {es : List MainAct} {fd : ℤ}
  {line : CommandLine}

/-- In BESS mode nothing is configured. -/
theorem parseArgs_bess (h : parseArgs env.access line = .ok o)
    (hbess : o.targetType = some (bytes "bess")) : o.doConfigNetwork = false := by
  have hparses := parseArgs_parses h
  have htarget := hparses.target
  rw [CommandLine.target, ← hparses.targetType, if_pos hbess] at htarget
  exact htarget.2.2.2.2.2.2

theorem HandedOver.tapFd (hcfg : configFromOptions env.config o env.stack = .ok cfg)
    (hbess : o.targetType = some (bytes "bess") → o.doConfigNetwork = false)
    (h : HandedOver env o cfg es fd) : Handover.TapFd env o es fd := by
  cases h with
  | given htapfd halone => exact .inl ⟨htapfd, rfl, halone⟩
  | @received n sent htapfd hdone hrecv hsent =>
    obtain ⟨fd, hfd⟩ := childProcess_delivers env.child env.sv.2 cfg hbess hdone.value
    have hcalls : Delivered o cfg fd (childCalls es) := by rw [hdone.calls]; exact hfd
    obtain ⟨made, hmade, hlog⟩ := hcalls
    rw [hlog.1, List.mem_singleton] at hsent
    subst hsent
    exact .inr ⟨n, sent, cfg, rfl, hrecv, hcfg, made, hmade, hlog⟩

theorem MainLaw.handover (hcfg : configFromOptions env.config o env.stack = .ok cfg)
    (hbess : o.targetType = some (bytes "bess") → o.doConfigNetwork = false) {e : MainAct}
    (h : MainLaw env o cfg es e) : Handover env o es e := by
  cases e with
  | recvfd =>
    obtain ⟨hdone, hqueued⟩ := h
    obtain ⟨fd, made, -, hsent, -⟩ := childProcess_delivers env.child env.sv.2 cfg hbess hdone.value
    exact ⟨hdone.status, fd, by rw [hqueued, hdone.calls]; exact hsent⟩
  | parent fd => exact HandedOver.tapFd hcfg hbess h
  | doSlirp fd => exact HandedOver.tapFd hcfg hbess h
  | _ => trivial

theorem main_eq_launch (h : parseArgs env.access line = .ok o)
    (hcfg : configFromOptions env.config o env.stack = .ok cfg) :
    main C env line = launch C env o cfg := by
  simp only [main, h, hcfg]

/-- A run of `main` with accepted arguments. -/
theorem main_cases (h : parseArgs env.access line = .ok o) :
    (∃ printed, configFromOptions env.config o env.stack = .error printed ∧
      (main C env line).run () = ⟨.stop (.exit 1), (), [.sys (.eprintf printed)]⟩) ∨
    ∃ cfg why, configFromOptions env.config o env.stack = .ok cfg ∧
      ((main C env line).run ()).out = .stop why ∧
      MainEnds C env o cfg why ((main C env line).run ()).calls := by
  cases hcfg : configFromOptions env.config o env.stack with
  | error printed =>
    refine .inl ⟨printed, rfl, ?_⟩
    simp only [main, h, hcfg]
    rfl
  | ok cfg =>
    have hlaunch := @launch_exits _ C env o cfg (parseArgs_bess h) [] () rfl
    rw [main_eq_launch h hcfg]
    split at hlaunch
    · exact hlaunch.elim
    · next why hwhy => exact .inr ⟨cfg, why, rfl, hwhy, hlaunch⟩

/-- **The parent takes the descriptor from the queue when it is there, calls `do_slirp` only with
    it (or with the one given), never blocks in `recvmsg`, and exits with 0 only after an event of
    the exit descriptor.** -/
theorem main_handover (C : Libc) (env : MainEnv L) (line : CommandLine) (o : Options)
    (h : parseArgs env.access line = .ok o) :
    Always (Handover env o) ((main C env line).run ()).calls ∧
    ∃ why, ((main C env line).run ()).out = .stop why ∧ why ≠ .blocked ∧
      (why.status? = some 0 → ∃ cfg, configFromOptions env.config o env.stack = .ok cfg ∧
        ExitFd C env o cfg ((main C env line).run ()).calls) := by
  rcases @main_cases _ C _ _ _ h with ⟨printed, -, hrun⟩ | ⟨cfg, why, hcfg, hout, hends⟩
  · rw [hrun]
    exact ⟨Always.nil.snoc trivial, .exit 1, rfl, nofun, nofun⟩
  · refine ⟨fun a e b hab => (hends.law a e b hab).handover hcfg (parseArgs_bess h), why, hout,
      hends.notBlocked, fun hzero => ⟨cfg, hcfg, hends.exitFd hzero⟩⟩

end

/-- `-c -e 9 42 tap0`: after the handover the exit descriptor is reported, and `main` exits
    with 0. -/
theorem main_handover_exit :
    let line : CommandLine := ⟨[.configure, .exitFd (bytes "9")], [bytes "42", bytes "tap0"]⟩
    let tick : Tick := { sampleTick with poll := ⟨1, some (.ready 1 [0, 16])⟩ }
    let env := MainEnv.smooth (fun _ => true) ⟨6, fun _ => none, fun _ => none, some []⟩ 0 [tick]
    ∃ o, parseArgs env.access line = .ok o ∧
      .doSlirp 5 ∈ ((main .exact env line).run ()).calls ∧
      ((main .exact env line).run ()).out = .stop (.exit 0) ∧
      Always (Handover env o) ((main .exact env line).run ()).calls := by
  intro line tick env
  obtain ⟨o, ho⟩ : ∃ o, parseArgs env.access line = .ok o := ⟨_, rfl⟩
  refine ⟨o, ho, ?_, ?_, (main_handover .exact env line o ho).1⟩
  · decide +kernel
  · decide +kernel

end Slirp4netns
