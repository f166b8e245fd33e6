/-
  slirp4netns formalization — the capabilities after `create_sandbox`.

  The kernel has `n` capabilities.  `PR_CAPBSET_DROP` gives `EINVAL` from number
  `n` on, which is how the loop of `create_sandbox` ends; the other calls may
  fail as they like.

  * `dropLoop_run`: the loop as it is written ends, and does what `dropCaps` does;
  * `capabilities_dropped`: if `create_sandbox` returns 0, only
    `CAP_NET_BIND_SERVICE` is left, and it does not return 0 if one of the calls
    fails.
-/
import Mathlib.Data.Fintype.Basic
import Slirp4netns.HostMounts

namespace Slirp4netns

/-! ## The loop -/

/-- `prctl(PR_CAPBSET_DROP, i, …)`, and whether `errno` is `EINVAL`. -/
def SandboxEnv.prctlDrop (env : SandboxEnv) (i : ℕ) : ℤ × Bool :=
  if i ≤ env.capLast then (env.capbsetDrop i, false) else (-1, true)

/-- `for (i = 0;; i++)`, for at most `fuel` iterations; `none` if that is not enough. -/
def dropLoop (env : SandboxEnv) (next : SandboxProg ℤ) : ℕ → ℕ → SandboxProg (Option ℤ)
  | 0, _ => return none
  | fuel + 1, i =>
    if i = capNetBindService then dropLoop env next fuel (i + 1)
    else do
      let ret := env.prctlDrop i
      Prog.call (.capbsetDrop i ret.1)
      if ret.1 < 0 then
        if ret.2 then some <$> next
        else do
          Prog.call (.eprintf (bytes "prctl(PR_CAPBSET_DROP)\n"))
          return some ret.1
      else dropLoop env next fuel (i + 1)

/-- **The loop ends**: after one iteration for each capability, one for the `EINVAL`, and one
    more if the number that is skipped is the first without a capability. -/
theorem dropLoop_run (env : SandboxEnv) (next : SandboxProg ℤ) {i n fuel : ℕ}
    (hi : i + n = env.capLast + 1) (hfuel : n + 2 ≤ fuel) (k : Kernel) :
    (dropLoop env next fuel i).run k = (some <$> dropCaps env next i n).run k := by
  -- by induction on the capabilities that are left
  induction n generalizing i fuel k with
  | zero =>
    have hend : ∀ j, env.capLast < j → env.prctlDrop j = (-1, true) := fun j hj =>
      if_neg (Nat.not_le.2 hj)
    obtain ⟨fuel, rfl⟩ : ∃ f, fuel = f + 2 := ⟨fuel - 2, by omega⟩
    by_cases hskip : i = capNetBindService
    · have hne : i + 1 ≠ capNetBindService := by omega
      rw [dropLoop, if_pos hskip, dropLoop, if_neg hne, dropCaps, if_pos hskip, Prog.map_bind_run,
        hend (i + 1) (by omega)]
      rfl
    · rw [dropLoop, if_neg hskip, dropCaps, if_neg hskip, Prog.map_bind_run, hend i (by omega)]
      rfl
  | succ n ih =>
    obtain ⟨fuel, rfl⟩ : ∃ f, fuel = f + 1 := ⟨fuel - 1, by omega⟩
    have hrest := fun k => @ih (i + 1) fuel (by omega) (by omega) k
    by_cases hskip : i = capNetBindService
    · rw [dropLoop, if_pos hskip, dropCaps, if_pos hskip, hrest]
    · have hdrop : env.prctlDrop i = (env.capbsetDrop i, false) := if_pos (by omega)
      rw [dropLoop, if_neg hskip, dropCaps, if_neg hskip, hdrop, attempt, Prog.map_bind_run,
        Prog.call_bind_run, Prog.call_bind_run]
      by_cases hrc : env.capbsetDrop i < 0
      · rw [if_pos hrc, if_pos hrc]
        rfl
      · rw [if_neg hrc, if_neg hrc, hrest, Prog.map_bind_run]
        rfl

/-! ## Capability sets -/

/-- The sets of a thread, of `n` capabilities. -/
structure Creds (n : ℕ) where
  bounding : Finset (Fin n)
  permitted : Finset (Fin n)
  effective : Finset (Fin n)
  inheritable : Finset (Fin n)
  ambient : Finset (Fin n)
  noNewPrivs : Bool

/-- What a call does to the sets; one that fails does nothing. -/
def Creds.apply {n : ℕ} (c : Creds n) : SandboxCall → Creds n
  | .noNewPrivs rc => if rc < 0 then c else { c with noNewPrivs := true }
  | .ambientClearAll rc => if rc < 0 then c else { c with ambient := ∅ }
  | .capbsetDrop i rc =>
    if rc < 0 then c else { c with bounding := c.bounding.filter fun cap => cap.val ≠ i }
  | .capset caps rc =>
    let set := Finset.univ.filter fun cap : Fin n => cap.val ∈ caps
    if rc < 0 then c else { c with permitted := set, effective := set, inheritable := set }
  | _ => c

/-- A call about capabilities that fails, but for the `EINVAL` that ends the loop. -/
def SandboxCall.CapFailed (n : ℕ) : SandboxCall → Prop
  | .noNewPrivs rc => rc < 0
  | .ambientClearAll rc => rc < 0
  | .capbsetDrop i rc => rc < 0 ∧ i < n
  | .capset _ rc => rc < 0
  | _ => False

/-- Nothing is left but `CAP_NET_BIND_SERVICE`. -/
structure Creds.Locked {n : ℕ} (h : capNetBindService < n) (c : Creds n) : Prop where
  bounding : c.bounding ⊆ {⟨capNetBindService, h⟩}
  permitted : c.permitted = {⟨capNetBindService, h⟩}
  effective : c.effective = {⟨capNetBindService, h⟩}
  inheritable : c.inheritable = {⟨capNetBindService, h⟩}
  ambient : c.ambient = ∅
  noNewPrivs : c.noNewPrivs = true

/-- The sets while the loop is at `i`. -/
structure Creds.Dropped {n : ℕ} (i : ℕ) (c : Creds n) : Prop where
  bounding : ∀ cap ∈ c.bounding, cap.val < i → cap.val = capNetBindService
  ambient : c.ambient = ∅
  noNewPrivs : c.noNewPrivs = true

/-! ## The calls of create_sandbox -/

section
variable {n : ℕ} {c : Creds n} {A A' : Creds n → Prop} {cs : List SandboxCall} {k k' : Kernel}
  {Q : List SandboxCall → Kernel → Prop}

/-- No call about capabilities has failed, and the sets are in `A`. -/
def SoFar (c : Creds n) (A : Creds n → Prop) (cs : List SandboxCall) (_ : Kernel) : Prop :=
  (∀ e ∈ cs, ¬ e.CapFailed n) ∧ A (cs.foldl Creds.apply c)

theorem SoFar.snoc {e : SandboxCall} (h : SoFar c A cs k) (he : ¬ e.CapFailed n)
    (hA : ∀ c, A c → A' (c.apply e)) : SoFar c A' (cs ++ [e]) k' := by
  refine ⟨fun x hx => ?_, ?_⟩
  · rcases List.mem_append.1 hx with hx | hx
    · exact h.1 x hx
    · rw [List.mem_singleton.1 hx]
      exact he
  · rw [List.foldl_concat]
    exact hA _ h.2

/-- The calls about other things. -/
theorem SoFar.other {e : SandboxCall} (h : SoFar c A cs k) (he : ¬ e.CapFailed n)
    (hsame : ∀ c : Creds n, c.apply e = c) : SoFar c A (cs ++ [e]) k' :=
  h.snoc he fun c hc => (hsame c).symm ▸ hc

theorem attempt_soFar {call : ℤ → SandboxCall} {rc : ℤ} {message : Bytes} {next : SandboxProg ℤ}
    (hcall : ¬ (call rc).CapFailed n) (hsame : ∀ c : Creds n, c.apply (call rc) = c)
    (hnext : Returns (SoFar c A) next Q) : Returns (SoFar c A) (attempt call rc message next) Q :=
  Returns.attempt (fun _ _ _ h => h.other hcall hsame) fun _ => hnext

theorem addMount_soFar (env : AddMountEnv) (source target : Path) :
    Returns (SoFar c A) (addMount env source target) (SoFar c A) := by
  refine Returns.slaveSource (fun _ _ _ h _ => h.other id fun _ => rfl)
    (fun _ _ h _ => h.other id fun _ => rfl) ?_
  refine attempt_soFar id (fun _ => rfl) ?_
  refine attempt_soFar id (fun _ => rfl) ?_
  exact attempt_soFar id (fun _ => rfl) (Returns.pure fun _ _ h => h)

theorem bindEscapedResolvConf_soFar (env : SandboxEnv) (root : Path) :
    Returns (SoFar c A) (bindEscapedResolvConf env root) (SoFar c A) := by
  refine Returns.call (fun _ _ h => h.other id fun _ => rfl) ?_
  cases env.realpath with
  | none => exact Returns.pure fun _ _ h => h
  | some real =>
    refine Returns.ite (fun _ => ?_) fun _ => Returns.pure fun _ _ h => h
    refine Returns.call (fun _ _ h => h.other id fun _ => rfl) ?_
    refine attempt_soFar id (fun _ => rfl) ?_
    refine attempt_soFar id (fun _ => rfl) ?_
    refine Returns.call (fun _ _ h => h.other id fun _ => rfl) ?_
    exact Returns.report (addMount_soFar _ _ _) _

theorem SoFar.noNewPrivs {rc : ℤ} (hrc : 0 ≤ rc) (h : SoFar c A cs k) :
    SoFar c (fun c => c.noNewPrivs = true) (cs ++ [.noNewPrivs rc]) k' := by
  refine h.snoc (Int.not_lt.2 hrc) fun c _ => ?_
  rw [Creds.apply, if_neg (Int.not_lt.2 hrc)]

theorem SoFar.ambientClearAll {rc : ℤ} (hrc : 0 ≤ rc)
    (h : SoFar c (fun c => c.noNewPrivs = true) cs k) :
    SoFar c (Creds.Dropped 0) (cs ++ [.ambientClearAll rc]) k' := by
  refine h.snoc (Int.not_lt.2 hrc) fun c hc => ?_
  rw [Creds.apply, if_neg (Int.not_lt.2 hrc)]
  exact ⟨fun _ _ hlt => absurd hlt (Nat.not_lt_zero _), rfl, hc⟩

/-- One more capability is dropped, or it is the one to keep. -/
theorem Creds.Dropped.next {i : ℕ} {rc : ℤ} (hrc : 0 ≤ rc) (h : c.Dropped i) :
    (c.apply (.capbsetDrop i rc)).Dropped (i + 1) := by
  rw [Creds.apply, if_neg (Int.not_lt.2 hrc)]
  refine ⟨fun cap hcap hlt => ?_, h.ambient, h.noNewPrivs⟩
  obtain ⟨hmem, hne⟩ := Finset.mem_filter.1 hcap
  exact h.bounding cap hmem (by omega)

theorem Creds.Dropped.skip (h : c.Dropped capNetBindService) :
    c.Dropped (capNetBindService + 1) := by
  refine ⟨fun cap hcap hlt => ?_, h.ambient, h.noNewPrivs⟩
  by_cases heq : cap.val = capNetBindService
  · exact heq
  · exact h.bounding cap hcap (by omega)

theorem dropCaps_soFar (env : SandboxEnv) {next : SandboxProg ℤ}
    (hnext : Returns (SoFar c (Creds.Dropped n)) next Q) {i m : ℕ} (hi : i + m = n) :
    Returns (SoFar c (Creds.Dropped i)) (dropCaps env next i m) Q := by
  induction m generalizing i with
  | zero =>
    obtain rfl : i = n := by omega
    refine Returns.call (fun _ _ h => h.other ?_ fun _ => rfl) hnext
    rintro ⟨-, hlt⟩
    split at hlt <;> omega
  | succ m ih =>
    have hrest := ih (i := i + 1) (by omega)
    refine Returns.ite (fun hskip => ?_) fun _ => ?_
    · subst hskip
      exact hrest.conseq (fun _ _ h => ⟨h.1, h.2.skip⟩) fun _ _ h => h
    · refine Returns.attempt (fun hrc _ _ h => h.snoc ?_ fun _ hc => hc.next hrc) fun _ => hrest
      rintro ⟨hlt, -⟩
      omega

/-- The sets that `capset` leaves. -/
theorem Creds.Dropped.capset (h : capNetBindService < n) {rc : ℤ} (hrc : 0 ≤ rc)
    (hc : c.Dropped n) : (c.apply (.capset [capNetBindService] rc)).Locked h := by
  have hset : (Finset.univ.filter fun cap : Fin n => cap.val ∈ [capNetBindService]) =
      {⟨capNetBindService, h⟩} := by
    ext cap
    simp [Fin.ext_iff]
  simp only [Creds.apply, hset, if_neg (Int.not_lt.2 hrc)]
  refine ⟨fun cap hcap => ?_, rfl, rfl, rfl, hc.ambient, hc.noNewPrivs⟩
  exact Finset.mem_singleton.2 (Fin.ext (hc.bounding cap hcap cap.isLt))

end

section
variable (env : SandboxEnv) (c : Creds (env.capLast + 1))
  (h : capNetBindService < env.capLast + 1)

theorem leaveOld_soFar :
    Returns (SoFar c fun _ => True) (leaveOld env) (SoFar c (Creds.Locked h)) := by
  refine attempt_soFar id (fun _ => rfl) ?_
  refine attempt_soFar id (fun _ => rfl) ?_
  refine attempt_soFar id (fun _ => rfl) ?_
  refine Returns.call (fun _ _ h => h.other id fun _ => rfl) ?_
  refine Returns.warn (fun _ _ h => h.other id fun _ => rfl) ?_
  refine Returns.attempt (fun hrc _ _ h => h.noNewPrivs hrc) fun _ => ?_
  refine Returns.attempt (fun hrc _ _ h => h.ambientClearAll hrc) fun _ => ?_
  refine dropCaps_soFar env ?_ (Nat.zero_add _)
  exact Returns.attempt (fun hrc _ _ hs => hs.snoc (Int.not_lt.2 hrc) fun _ hc => hc.capset h hrc)
    fun _ => Returns.pure fun _ _ hs => hs

theorem createSandbox_soFar :
    Returns (SoFar c fun _ => True) (createSandbox env) (SoFar c (Creds.Locked h)) := by
  refine attempt_soFar id (fun _ => rfl) ?_
  refine attempt_soFar id (fun _ => rfl) ?_
  refine attempt_soFar id (fun _ => rfl) ?_
  refine attempt_soFar id (fun _ => rfl) ?_
  refine attempt_soFar id (fun _ => rfl) ?_
  refine attempt_soFar id (fun _ => rfl) ?_
  refine Returns.orReturn (addMount_soFar _ _ _) ?_
  refine Returns.orReturn (bindEscapedResolvConf_soFar _ _) ?_
  refine Returns.orReturn (addMount_soFar _ _ _) ?_
  refine attempt_soFar id (fun _ => rfl) ?_
  exact attempt_soFar id (fun _ => rfl) (leaveOld_soFar env c h)

/-- **Only `CAP_NET_BIND_SERVICE` survives.**  On a kernel with any number of capabilities, from
    any sets and with any outcomes of the calls: the loop ends; if `create_sandbox` returns 0 the
    sets are locked; and it returns a negative value if one of the calls about capabilities
    fails, but for the `EINVAL` that ends the loop. -/
theorem capabilities_dropped (k : Kernel) :
    (∀ (next : SandboxProg ℤ) (fuel : ℕ), env.capLast + 3 ≤ fuel →
      (dropLoop env next fuel 0).run k = (some <$> dropCaps env next 0 (env.capLast + 1)).run k) ∧
    (((createSandbox env).run k).value = 0 →
      (((createSandbox env).run k).calls.foldl Creds.apply c).Locked h) ∧
    ∀ e ∈ ((createSandbox env).run k).calls, e.CapFailed (env.capLast + 1) →
      ((createSandbox env).run k).value < 0 := by
  have hstart : SoFar c (fun _ => True) [] k := ⟨fun _ he => absurd he List.not_mem_nil, trivial⟩
  have hend := (createSandbox_soFar env c h).value hstart
  refine ⟨fun next fuel hfuel => dropLoop_run env next (Nat.zero_add _) hfuel k, ?_, ?_⟩
  · intro hzero
    rcases hend with hneg | ⟨-, hend⟩
    · omega
    · exact hend.2
  · intro e he hfailed
    rcases hend with hneg | ⟨-, hend⟩
    · exact hneg
    · exact absurd hfailed (hend.1 e he)

end

/-- A kernel with 41 capabilities on which every call succeeds, from full sets. -/
theorem capabilities_dropped_smooth :
    let full : Creds 41 := ⟨.univ, .univ, .univ, .univ, .univ, false⟩
    let ran := (createSandbox .smooth).run (Kernel.ofHost [sharedRoot] sharedRoot)
    ran.value = 0 ∧ (ran.calls.foldl Creds.apply full).Locked (by decide) := by
  intro full ran
  have hsucceeds : Succeeds (createSandbox .smooth) := .createSandbox fun _ h => nomatch h
  have hstart : SoFar full (fun _ => True) [] (Kernel.ofHost [sharedRoot] sharedRoot) :=
    ⟨fun _ he => absurd he List.not_mem_nil, trivial⟩
  have hend := (createSandbox_soFar .smooth full (by decide)).value hstart
  have hzero : ran.value = 0 := (hend.resolve_left (hsucceeds.not_neg _)).1
  exact ⟨hzero, (capabilities_dropped .smooth full (by decide) _).2.1 hzero⟩

end Slirp4netns
