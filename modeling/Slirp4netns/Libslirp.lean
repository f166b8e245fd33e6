/-
  slirp4netns formalization — what is known of libslirp, and the calls that the
  program makes.

  libslirp is outside the program.  A `Libslirp` is any system with a state and
  the two calls of the API handlers; its state also decides which calls
  succeed, so that a theorem about every `Libslirp` and every state covers every
  sequence of successes and failures.  Of its host forwards only this much is
  assumed: a call that fails leaves them alone, and a call that succeeds changes
  the forward it names.  In a `MapLibslirp` the host forwards behave as a finite
  map: a second forward of the same host address and port is refused, and a
  removal succeeds exactly on the forwards that are there.

  A file descriptor is named by what it is for, since its number can be used
  again after a `close`.
-/
import Slirp4netns.Libc
import Mathlib.Logic.Function.Basic

namespace Slirp4netns

/-- The host's end of a forward, by which libslirp finds it. -/
structure HostKey where
  isUdp : ℤ
  hostAddr : InAddr
  hostPort : ℤ
  deriving DecidableEq

/-- The guest's end of a forward. -/
structure GuestEnd where
  guestAddr : InAddr
  guestPort : ℤ
  deriving DecidableEq

/-- Any libslirp. -/
structure Libslirp where
  State : Type
  /-- the host forwards -/
  fwds : State → HostKey → Option GuestEnd
  slirpAddHostfwd : State → HostKey → GuestEnd → ℤ × State
  slirpRemoveHostfwd : State → HostKey → ℤ × State
  add_failed : ∀ {s k g}, (slirpAddHostfwd s k g).1 < 0 →
    fwds (slirpAddHostfwd s k g).2 = fwds s
  add_ok : ∀ {s k g}, 0 ≤ (slirpAddHostfwd s k g).1 →
    fwds (slirpAddHostfwd s k g).2 = Function.update (fwds s) k (some g)
  remove_failed : ∀ {s k}, (slirpRemoveHostfwd s k).1 < 0 →
    fwds (slirpRemoveHostfwd s k).2 = fwds s
  remove_ok : ∀ {s k}, 0 ≤ (slirpRemoveHostfwd s k).1 →
    fwds (slirpRemoveHostfwd s k).2 = Function.update (fwds s) k none

/-- libslirp's host forwards as a finite map. -/
structure MapLibslirp extends Libslirp where
  add_present : ∀ {s k g}, (fwds s k).isSome → (slirpAddHostfwd s k g).1 < 0
  remove_present : ∀ {s k}, (fwds s k).isSome → (slirpRemoveHostfwd s k).1 = 0
  remove_absent : ∀ {s k}, fwds s k = none → (slirpRemoveHostfwd s k).1 = -1

/-! ## A table -/

/-- A table of host forwards, and for each addition to come whether the port
    cannot be bound; there is no failure after the last one given. -/
structure Table where
  rows : List (HostKey × GuestEnd)
  unbindable : List Bool
  deriving DecidableEq

namespace Table

/-- A forward is added. -/
def add (t : Table) (k : HostKey) (g : GuestEnd) : ℤ × Table :=
  if (t.rows.lookup k).isSome ∨ t.unbindable.headD false then
    (-1, { t with unbindable := t.unbindable.tail })
  else (0, ⟨(k, g) :: t.rows, t.unbindable.tail⟩)

/-- A forward is removed. -/
def remove (t : Table) (k : HostKey) : ℤ × Table :=
  if (t.rows.lookup k).isSome then (0, { t with rows := t.rows.filter (·.1 ≠ k) }) else (-1, t)

theorem lookup_filter_ne (rows : List (HostKey × GuestEnd)) (k k' : HostKey) :
    (rows.filter (·.1 ≠ k)).lookup k' = if k' = k then none else rows.lookup k' := by
  induction rows with
  | nil => simp
  | cons row rows ih =>
    obtain ⟨l, g⟩ := row
    by_cases hl : l = k
    · subst hl
      rw [List.filter_cons_of_neg (by simp), ih]
      split
      · rfl
      · next h => rw [List.lookup_cons, beq_eq_false_iff_ne.2 h]
    · rw [List.filter_cons_of_pos (by simpa using hl), List.lookup_cons, List.lookup_cons, ih]
      by_cases hk : k' = k
      · have hne : k' ≠ l := fun h => hl (h.symm.trans hk)
        rw [beq_eq_false_iff_ne.2 hne, if_pos hk]
      · rw [if_neg hk, if_neg hk]

end Table

/-- The table as a libslirp. -/
def tableLibslirp : MapLibslirp where
  State := Table
  fwds t k := t.rows.lookup k
  slirpAddHostfwd := Table.add
  slirpRemoveHostfwd := Table.remove
  add_failed {t k g} h := by
    unfold Table.add at h ⊢
    split at h
    · next hc => rw [if_pos hc]
    · simp at h
  add_ok {t k g} h := by
    unfold Table.add at h ⊢
    split at h
    · simp at h
    · next hc =>
      rw [if_neg hc]
      funext k'
      rw [Function.update_apply, List.lookup_cons]
      by_cases hk : k' = k
      · rw [hk, beq_self_eq_true, if_pos rfl]
      · rw [beq_eq_false_iff_ne.2 hk, if_neg hk]
  remove_failed {t k} h := by
    unfold Table.remove at h ⊢
    split at h
    · simp at h
    · next hc => rw [if_neg hc]
  remove_ok {t k} h := by
    unfold Table.remove at h ⊢
    split at h
    · next hc =>
      rw [if_pos hc]
      funext k'
      rw [Table.lookup_filter_ne, Function.update_apply]
    · simp at h
  add_present {t k g} h := by
    rw [Table.add, if_pos (Or.inl h)]; exact Int.negSucc_lt_zero 0
  remove_present {t k} h := by
    rw [Table.remove, if_pos h]
  remove_absent {t k} h := by
    rw [Table.remove, if_neg (by rw [h]; decide)]

/-! ## Calls -/

/-- What a descriptor is for. -/
inductive Fd where
  | tap
  | ready
  | exit
  /-- the listening API socket -/
  | api
  /-- an accepted API connection -/
  | conn
  deriving DecidableEq

/-- Calls that leave the program, with their results. -/
inductive Call where
  | accept (listenfd : Fd) (rc : ℤ)
  | read (fd : Fd) (rc : ℤ)
  | write (fd : Fd) (data : Bytes) (rc : ℤ)
  | shutdown (fd : Fd)
  | close (fd : Fd)
  /-- to standard error -/
  | fprintf (text : Bytes)
  | perror (msg : Bytes)
  | slirpAddHostfwd (key : HostKey) (guest : GuestEnd) (rc : ℤ)
  | slirpRemoveHostfwd (key : HostKey) (rc : ℤ)
  deriving DecidableEq

/-- Why the process ends in the middle of a function, or has no defined
    behaviour from there on. -/
inductive Stop where
  /-- `exit(EXIT_FAILURE)` -/
  | exitFailure
  /-- a `NULL` string reaches `strcmp` or `inet_pton` -/
  | nullPointer
  /-- an `int` or an `int64_t` overflows -/
  | signedOverflow
  /-- a store past the end of a buffer -/
  | outOfBounds
  deriving DecidableEq

end Slirp4netns
