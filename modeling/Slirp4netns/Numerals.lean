/-
  slirp4netns formalization — the numbers of the command line (`parse_args` in
  `main.c`).

  Five arguments are numbers: those of `--exit-fd`, `--ready-fd` and `--mtu`, the
  PID and the TAPFD.  All are read with `strtol`, and the result is narrowed to
  `int` or `unsigned int` before it is checked.  Nothing checks that there was a
  numeral.

  `Numeral` is the grammar.  `number_arguments` says for which texts `parse_args`
  accepts exactly the numerals of the range and stores what they denote: all but
  the empty text, where 0 is allowed, and the numerals beyond the range that
  narrowing brings into it.
-/
import Slirp4netns.Options

namespace Slirp4netns

/-! ## Numerals -/

/-- A decimal numeral, after optional white space, and what it denotes. -/
inductive Numeral : Bytes → ℤ → Prop
  | unsigned {ws ds : Bytes} (hws : ∀ c ∈ ws, isSpace c = true) (hne : ds ≠ [])
      (hds : ∀ c ∈ ds, isDigit c = true) : Numeral (ws ++ ds) (readDecimal ds)
  | plus {ws ds : Bytes} (hws : ∀ c ∈ ws, isSpace c = true) (hne : ds ≠ [])
      (hds : ∀ c ∈ ds, isDigit c = true) : Numeral (ws ++ 43 :: ds) (readDecimal ds)
  | minus {ws ds : Bytes} (hws : ∀ c ∈ ws, isSpace c = true) (hne : ds ≠ [])
      (hds : ∀ c ∈ ds, isDigit c = true) : Numeral (ws ++ 45 :: ds) (-readDecimal ds)

section
variable {s ws ds : Bytes} {n : ℤ}

/-- White space is skipped up to the first other character. -/
theorem dropWhile_isSpace {c : UInt8} (hws : ∀ c ∈ ws, isSpace c = true) (hc : isSpace c = false)
    (t : Bytes) : (ws ++ c :: t).dropWhile isSpace = c :: t := by
  rw [List.dropWhile_append_of_pos hws, List.dropWhile_cons_of_neg (by simp [hc])]

/-- The digits after a sign are the whole rest. -/
theorem readNumeral_of_sign {neg : Bool} (hsign : readSign (s.dropWhile isSpace) = (neg, ds))
    (hne : ds ≠ []) (hds : ∀ c ∈ ds, isDigit c = true) :
    readNumeral s = some (neg, readDecimal ds, []) := by
  have htake : ds.takeWhile isDigit = ds := List.takeWhile_eq_self_iff.2 hds
  have hdrop : ds.dropWhile isDigit = [] := List.dropWhile_eq_nil_iff.2 hds
  simp only [readNumeral, hsign, htake, hdrop, if_neg hne]

theorem Numeral.readNumeral (h : Numeral s n) :
    ∃ neg m, readNumeral s = some (neg, m, []) ∧ n = if neg then -(m : ℤ) else m := by
  have hplain : ∀ c, isDigit c = true → isSpace c = false ∧ c ≠ 45 ∧ c ≠ 43 :=
    forall_byte (by decide +kernel)
  cases h with
  | @unsigned ws ds hws hne hds =>
    refine ⟨false, _, readNumeral_of_sign ?_ hne hds, rfl⟩
    obtain ⟨c, cs, rfl⟩ := List.exists_cons_of_ne_nil hne
    obtain ⟨hspace, hminus, hplus⟩ := hplain c (hds c (by simp))
    rw [dropWhile_isSpace hws hspace, readSign, if_neg hminus, if_neg hplus]
  | plus hws hne hds =>
    refine ⟨false, _, readNumeral_of_sign ?_ hne hds, rfl⟩
    rw [dropWhile_isSpace hws (by decide)]
    rfl
  | minus hws hne hds =>
    refine ⟨true, _, readNumeral_of_sign ?_ hne hds, rfl⟩
    rw [dropWhile_isSpace hws (by decide)]
    rfl

theorem readSign_cases (t : Bytes) : readSign t = (false, t) ∨
    (∃ u, t = 43 :: u ∧ readSign t = (false, u)) ∨ ∃ u, t = 45 :: u ∧ readSign t = (true, u) := by
  cases t with
  | nil => exact .inl rfl
  | cons c u =>
    rw [readSign]
    split
    · next hminus => exact .inr (.inr ⟨u, by rw [hminus], rfl⟩)
    · split
      · next hplus => exact .inr (.inl ⟨u, by rw [hplus], rfl⟩)
      · exact .inl rfl

theorem numeral_of_readNumeral {neg : Bool} {m : ℕ} (h : readNumeral s = some (neg, m, [])) :
    Numeral s (if neg then -(m : ℤ) else m) := by
  have hws : ∀ c ∈ s.takeWhile isSpace, isSpace c = true := fun c => List.mem_takeWhile_imp
  -- the numeral ends the text, so that all that follows the sign are digits
  have hread : ∀ {b : Bool} {ds : Bytes}, readSign (s.dropWhile isSpace) = (b, ds) →
      ds ≠ [] ∧ (∀ c ∈ ds, isDigit c = true) ∧ neg = b ∧ m = readDecimal ds := by
    intro b ds hsign
    simp only [readNumeral, hsign] at h
    split at h
    · cases h
    · next hne =>
      simp only [Option.some.injEq, Prod.mk.injEq, List.dropWhile_eq_nil_iff] at h
      obtain ⟨hneg, hm, hds⟩ := h
      rw [List.takeWhile_eq_self_iff.2 hds] at hne hm
      exact ⟨hne, hds, hneg.symm, hm.symm⟩
  rw [← @List.takeWhile_append_dropWhile _ isSpace s]
  rcases readSign_cases (s.dropWhile isSpace) with hsign | ⟨ds, ht, hsign⟩ | ⟨ds, ht, hsign⟩
  · obtain ⟨hne, hds, rfl, rfl⟩ := hread hsign
    exact .unsigned hws hne hds
  · obtain ⟨hne, hds, rfl, rfl⟩ := hread hsign
    rw [ht]
    exact .plus hws hne hds
  · obtain ⟨hne, hds, rfl, rfl⟩ := hread hsign
    rw [ht]
    exact .minus hws hne hds

/-- A text denotes at most one number. -/
theorem Numeral.unique {m : ℤ} (hm : Numeral s m) (hn : Numeral s n) : m = n := by
  obtain ⟨neg, k, hread, rfl⟩ := hm.readNumeral
  obtain ⟨neg', k', hread', rfl⟩ := hn.readNumeral
  rw [hread] at hread'
  cases hread'
  rfl

theorem not_numeral_nil : ¬ Numeral [] n := by
  intro h
  obtain ⟨neg, m, hread, -⟩ := h.readNumeral
  cases hread

/-- What passes the checks after `strtol`: a numeral of a `long`, or no numeral and no text. -/
theorem strtolExact_iff : strtolExact s = some n ↔
    (Numeral s n ∧ longMin ≤ n ∧ n ≤ longMax) ∨ (s = [] ∧ n = 0) := by
  cases hread : readNumeral s with
  | none =>
    have hno : ¬ Numeral s n := by
      intro h
      obtain ⟨neg, m, hm, -⟩ := h.readNumeral
      rw [hread] at hm
      cases hm
    simp only [strtolExact, strtol, hread]
    by_cases hs : s = []
    · simp [hs, not_numeral_nil, eq_comm]
    · simp [hs, hno]
  | some numeral =>
    obtain ⟨neg, m, rest⟩ := numeral
    have hs : s ≠ [] := by
      rintro rfl
      cases hread
    have hnumeral : Numeral s n ↔ rest = [] ∧ n = if neg then -(m : ℤ) else m := by
      constructor
      · intro h
        obtain ⟨neg', m', hread', rfl⟩ := h.readNumeral
        rw [hread] at hread'
        cases hread'
        exact ⟨rfl, rfl⟩
      · rintro ⟨rfl, rfl⟩
        exact numeral_of_readNumeral hread
    rw [hnumeral]
    simp only [strtolExact, strtol, hread, hs, false_and, or_false]
    generalize (if neg then -(m : ℤ) else m) = v
    by_cases hlow : v < longMin
    · simp [hlow]
      omega
    · by_cases hhigh : longMax < v
      · simp [hlow, hhigh]
        omega
      · by_cases hrest : rest = []
        · simp [hlow, hhigh, hrest]
          omega
        · simp [hlow, hhigh, hrest]

end

/-! ## The five arguments -/

/-- The arguments that are numbers. -/
inductive NumberArg where
  | exitFd
  | readyFd
  | mtu
  | pid
  | tapfd
  deriving DecidableEq

namespace NumberArg

/-- The least number that is documented. -/
def min : NumberArg → ℤ
  | exitFd | readyFd | tapfd => 0
  | mtu | pid => 1

/-- The greatest number that is documented. -/
def max : NumberArg → ℤ
  | exitFd | readyFd | pid | tapfd => intMax
  | mtu => 65521

/-- A number that is documented. -/
def InRange (k : NumberArg) (n : ℤ) : Prop := k.min ≤ n ∧ n ≤ k.max

/-- The conversion of a `long` to the type of the field. -/
def narrow : NumberArg → ℤ → ℤ
  | exitFd, n | readyFd, n | pid, n | tapfd, n => wrapInt n
  | mtu, n => n % 2 ^ 32

/-- The field of `struct options`. -/
def field : NumberArg → Options → ℤ
  | exitFd, o => o.exitFd
  | readyFd, o => o.readyFd
  | mtu, o => o.mtu
  | pid, o => o.targetPid
  | tapfd, o => o.tapfd

/-- The field with another value. -/
def store (v : ℤ) (o : Options) : NumberArg → Options
  | exitFd => { o with exitFd := v }
  | readyFd => { o with readyFd := v }
  | mtu => { o with mtu := v.toNat }
  | pid => { o with targetPid := v }
  | tapfd => { o with tapfd := v }

/-- How `parse_args` reads the argument. -/
def read (s : Bytes) : NumberArg → Except Exit ℤ
  | exitFd => intArg 0 (bytes "exit-fd must be a non-negative integer\n") s
  | readyFd => intArg 0 (bytes "ready-fd must be a non-negative integer\n") s
  | mtu => (mtuArg s).map Int.ofNat
  | pid => intArg 1 (bytes "PID must be a positive integer\n") s
  | tapfd => intArg 0 (bytes "TAPFD must a file descriptor\n") s

end NumberArg

theorem intArg_ok {min v : ℤ} {message s : Bytes} : intArg min message s = .ok v ↔
    ∃ n, strtolExact s = some n ∧ v = wrapInt n ∧ min ≤ v := by
  unfold intArg
  cases strtolExact s with
  | none => simp
  | some n =>
    by_cases hmin : wrapInt n < min
    · simp [hmin]
      omega
    · simp [hmin]
      omega

theorem mtuArg_ok {v : ℕ} {s : Bytes} : mtuArg s = .ok v ↔
    ∃ n, strtolExact s = some n ∧ (v : ℤ) = n % 2 ^ 32 ∧ 1 ≤ v ∧ v ≤ 65521 := by
  unfold mtuArg
  cases strtolExact s with
  | none => simp
  | some n =>
    have hpos : 0 ≤ n % 2 ^ 32 := Int.emod_nonneg n (by decide)
    dsimp only
    split
    · next hrange =>
      constructor
      · intro h
        cases h
      · rintro ⟨m, hm, hv, hmin, hmax⟩
        cases hm
        omega
    · next hrange =>
      constructor
      · intro h
        cases h
        exact ⟨n, rfl, Int.toNat_of_nonneg hpos, by omega, by omega⟩
      · rintro ⟨m, hm, hv, -⟩
        cases hm
        rw [← hv, Int.toNat_natCast]

/-- The check is made after the conversion. -/
theorem NumberArg.read_ok {k : NumberArg} {s : Bytes} {v : ℤ} : k.read s = .ok v ↔
    ∃ n, strtolExact s = some n ∧ v = k.narrow n ∧ k.InRange v := by
  have hint : ∀ {min : ℤ} {message : Bytes}, intArg min message s = .ok v ↔
      ∃ n, strtolExact s = some n ∧ v = wrapInt n ∧ min ≤ v ∧ v ≤ intMax := by
    intro min message
    rw [intArg_ok]
    refine exists_congr fun n => and_congr_right fun _ => and_congr_right fun hv => ?_
    rw [and_iff_left (hv ▸ (wrapInt_isInt n).2)]
  cases k with
  | exitFd | readyFd | pid | tapfd => exact hint
  | mtu =>
    rw [NumberArg.read]
    constructor
    · intro h
      cases hm : mtuArg s with
      | error e =>
        rw [hm] at h
        cases h
      | ok m =>
        rw [hm] at h
        cases h
        obtain ⟨n, hn, hv, hmin, hmax⟩ := mtuArg_ok.1 hm
        exact ⟨n, hn, hv, Int.ofNat_le.2 hmin, Int.ofNat_le.2 hmax⟩
    · rintro ⟨n, hn, rfl, hmin, hmax⟩
      simp only [NumberArg.narrow, NumberArg.min, NumberArg.max] at hmin hmax
      have hm : mtuArg s = .ok (n % 2 ^ 32).toNat :=
        mtuArg_ok.2 ⟨n, hn, Int.toNat_of_nonneg (by omega), by omega, by omega⟩
      rw [hm]
      exact congrArg Except.ok (Int.toNat_of_nonneg (by omega))

/-! ## In a command line -/

/-- A command line with a place for one argument. -/
structure Slot where
  before : List Opt
  after : List Opt
  args : List Bytes

namespace NumberArg

/-- The command line with an argument at that place; the PID and the TAPFD come first of those
    that are not options. -/
def line (c : Slot) (s : Bytes) : NumberArg → CommandLine
  | exitFd => ⟨c.before ++ .exitFd s :: c.after, c.args⟩
  | readyFd => ⟨c.before ++ .readyFd s :: c.after, c.args⟩
  | mtu => ⟨c.before ++ .mtu s :: c.after, c.args⟩
  | pid => ⟨c.before ++ c.after, s :: c.args⟩
  | tapfd => ⟨c.before ++ c.after, s :: c.args⟩

/-- The arguments that are not of options, by the kind of target. -/
def OfTarget (line : CommandLine) : NumberArg → Prop
  | pid => line.target = .pid
  | tapfd => line.target = .tapfd
  | exitFd | readyFd | mtu => False

/-- No later option overrides the argument; or the target is of the kind. -/
def Fits (c : Slot) : NumberArg → Prop
  | exitFd => ∀ o ∈ c.after, o.code ≠ 101
  | readyFd => ∀ o ∈ c.after, o.code ≠ 114
  | mtu => ∀ o ∈ c.after, o.code ≠ 109
  | pid => pid.OfTarget ⟨c.before ++ c.after, c.args⟩
  | tapfd => tapfd.OfTarget ⟨c.before ++ c.after, c.args⟩

end NumberArg

section
variable {access : Bytes → Bool} {opts : List Opt} {args : List Bytes} {t : ParseState}
  {o : Options} {k : NumberArg} {v : ℤ}

theorem parseArgs_ok_iff : parseArgs access ⟨opts, args⟩ = .ok o ↔
    ∃ t, parseOptions access opts .init = .ok t ∧ afterLoop access args t = .ok o := by
  rw [parseArgs_eq]
  exact Except.bind_eq_ok

/-- A write can be moved behind options with other codes. -/
theorem Writes.foldl_comm {code : ℤ} {f : ParseState → ParseState} (hf : Writes code f)
    (hcode : ∀ o ∈ opts, o.code ≠ code) (hok : ∀ o ∈ opts, ∃ g, parseOption access o = .ok g)
    (s : ParseState) : opts.foldl (fun s o => o.update access s) (f s) =
      f (opts.foldl (fun s o => o.update access s) s) := by
  induction opts generalizing s with
  | nil => rfl
  | cons p opts ih =>
    obtain ⟨g, hg⟩ := hok p (by simp)
    have hcomm : p.update access (f s) = f (p.update access s) := by
      simp only [Opt.update, hg]
      exact hf.comm (parseOption_writes hg) (hcode p (by simp)).symm s
    rw [List.foldl_cons, List.foldl_cons, hcomm]
    exact ih (fun o ho => hcode o (by simp [ho])) (fun o ho => hok o (by simp [ho])) _

/-- An option that no later one overrides could as well be the last one. -/
theorem parseOptions_insert {before after : List Opt} {p : Opt} {s : ParseState}
    (hafter : ∀ o ∈ after, o.code ≠ p.code) :
    parseOptions access (before ++ p :: after) s = .ok t ↔
      ∃ f u, parseOption access p = .ok f ∧ parseOptions access (before ++ after) s = .ok u ∧
        t = f u := by
  simp only [parseOptions_ok, List.foldl_append, List.foldl_cons, List.mem_append, List.mem_cons]
  have hmove : ∀ {f : ParseState → ParseState}, parseOption access p = .ok f →
      (∀ o ∈ after, ∃ g, parseOption access o = .ok g) → ∀ u,
      after.foldl (fun s o => o.update access s) (p.update access u) =
        f (after.foldl (fun s o => o.update access s) u) := by
    intro f hf hok u
    have hupdate : p.update access u = f u := by simp only [Opt.update, hf]
    rw [hupdate, (parseOption_writes hf).foldl_comm hafter hok]
  constructor
  · rintro ⟨hok, rfl⟩
    obtain ⟨f, hf⟩ := hok p (.inr (.inl rfl))
    exact ⟨f, _, hf, ⟨fun o ho => hok o (by tauto), rfl⟩, hmove hf (fun o ho => hok o (by tauto)) _⟩
  · rintro ⟨f, u, hf, ⟨hok, rfl⟩, rfl⟩
    refine ⟨?_, (hmove hf (fun o ho => hok o (.inr ho)) _).symm⟩
    rintro o (ho | rfl | ho)
    · exact hok o (.inl ho)
    · exact ⟨f, hf⟩
    · exact hok o (.inr ho)

/-- The arguments of options. -/
def NumberArg.opt (s : Bytes) : NumberArg → Option Opt
  | exitFd => some (.exitFd s)
  | readyFd => some (.readyFd s)
  | mtu => some (.mtu s)
  | pid | tapfd => none

/-- The number is stored. -/
def NumberArg.storeState (k : NumberArg) (v : ℤ) (t : ParseState) : ParseState :=
  { t with options := k.store v t.options }

theorem NumberArg.store_store (k : NumberArg) (v w : ℤ) (o : Options) :
    k.store v (k.store w o) = k.store v o := by
  cases k <;> rfl

theorem NumberArg.field_store (hv : k.InRange v) (o : Options) : k.field (k.store v o) = v := by
  cases k with
  | exitFd | readyFd | pid | tapfd => rfl
  | mtu => exact Int.toNat_of_nonneg (Int.le_trans (by decide) hv.1)

theorem NumberArg.storeState_storeState (k : NumberArg) (v w : ℤ) (t : ParseState) :
    k.storeState v (k.storeState w t) = k.storeState v t :=
  congrArg (fun o => { t with options := o }) (k.store_store v w t.options)

theorem parseOption_number {p : Opt} {s : Bytes} (hp : k.opt s = some p)
    {f : ParseState → ParseState} : parseOption access p = .ok f ↔
      ∃ v, k.read s = .ok v ∧ f = k.storeState v := by
  cases k with
  | pid | tapfd => cases hp
  | exitFd | readyFd =>
    cases hp
    rw [parseOption, Except.bind_eq_ok]
    refine exists_congr fun fd => and_congr_right fun _ => ?_
    constructor
    · intro h
      cases h
      rfl
    · rintro rfl
      rfl
  | mtu =>
    cases hp
    rw [parseOption, Except.bind_eq_ok, NumberArg.read]
    cases mtuArg s with
    | error e => simp [Except.map]
    | ok m =>
      constructor
      · rintro ⟨a, ha, hf⟩
        cases ha
        cases hf
        exact ⟨_, rfl, rfl⟩
      · rintro ⟨v, hv, rfl⟩
        cases hv
        exact ⟨m, rfl, rfl⟩

theorem NumberArg.isSome_opt {p : Opt} {s : Bytes} (h : k.opt s = some p) : (k.opt []).isSome := by
  cases k with
  | exitFd | readyFd | mtu => rfl
  | pid | tapfd => cases h

theorem copyOptargs_store (hk : (k.opt []).isSome) (v : ℤ) (t : ParseState) :
    copyOptargs (k.storeState v t) = (copyOptargs t).map (k.store v) := by
  cases k with
  | pid | tapfd => cases hk
  | exitFd | readyFd | mtu =>
    rw [copyOptargs, copyOptargs, apply_ite (Except.map _)]
    rfl

theorem bessMode_store (hk : (k.opt []).isSome) (v : ℤ) (o : Options) (args : List Bytes) :
    bessMode (k.store v o) args = (bessMode o args).map (k.store v) := by
  cases k with
  | pid | tapfd => cases hk
  | exitFd | readyFd | mtu =>
    unfold bessMode
    split
    · rfl
    · simp only [apply_ite (Except.map _)]
      rfl
    · rfl

theorem netnsMode_store (hk : (k.opt []).isSome) (v : ℤ) (o : Options) (args : List Bytes) :
    netnsMode access (k.store v o) args = (netnsMode access o args).map (k.store v) := by
  have htapname : ∀ o rest, selectTapname (k.store v o) rest =
      (selectTapname o rest).map (k.store v) := by
    intro o rest
    cases k with
    | pid | tapfd => cases hk
    | exitFd | readyFd | mtu =>
      simp only [selectTapname, apply_ite (Except.map _)]
      cases rest <;> rfl
  have hnetns : ∀ arg, selectNetns access (k.store v o) arg =
      (selectNetns access o arg).map (k.store v) := by
    intro arg
    cases k with
    | pid | tapfd => cases hk
    | exitFd | readyFd | mtu =>
      simp only [selectNetns, apply_ite (Except.map _)]
      cases intArg 1 (bytes "PID must be a positive integer\n") arg <;>
        cases intArg 0 (bytes "TAPFD must a file descriptor\n") arg <;> rfl
  have htype : (k.store v o).targetType = o.targetType := by
    cases k <;> rfl
  unfold netnsMode
  rw [htype]
  split
  · rfl
  · cases args with
    | nil => rfl
    | cons arg rest =>
      simp only [hnetns]
      cases selectNetns access o arg with
      | error e => rfl
      | ok o' => exact htapname o' rest

/-- Behind the loop nothing depends on the numbers of options. -/
theorem afterLoop_store (hk : (k.opt []).isSome) (access : Bytes → Bool) (args : List Bytes)
    (v : ℤ) (t : ParseState) :
    afterLoop access args (k.storeState v t) = (afterLoop access args t).map (k.store v) := by
  rw [afterLoop, afterLoop, copyOptargs_store hk]
  cases copyOptargs t with
  | error e => rfl
  | ok o =>
    have htype : (k.store v o).targetType = o.targetType := by
      cases k <;> rfl
    show (if (k.store v o).targetType = some (bytes "bess") then bessMode (k.store v o) args
      else netnsMode access (k.store v o) args) = Except.map (k.store v)
        (if o.targetType = some (bytes "bess") then bessMode o args else netnsMode access o args)
    rw [htype, bessMode_store hk, netnsMode_store hk]
    split <;> rfl

end

section
variable {access : Bytes → Bool} {k : NumberArg} {c : Slot} {s s₀ : Bytes} {o o₀ : Options} {v : ℤ}
  {before after opts : List Opt} {args : List Bytes}

/-- A number as the argument of an option. -/
theorem parseArgs_option {p : Opt} (hp : k.opt s = some p) (hafter : ∀ o ∈ after, o.code ≠ p.code) :
    parseArgs access ⟨before ++ p :: after, args⟩ = .ok o ↔
      ∃ v u, k.read s = .ok v ∧ parseOptions access (before ++ after) .init = .ok u ∧
        afterLoop access args (k.storeState v u) = .ok o := by
  rw [parseArgs_ok_iff]
  constructor
  · rintro ⟨t, ht, ho⟩
    obtain ⟨f, u, hf, hu, rfl⟩ := (parseOptions_insert hafter).1 ht
    obtain ⟨v, hv, rfl⟩ := (parseOption_number hp).1 hf
    exact ⟨v, u, hv, hu, ho⟩
  · rintro ⟨v, u, hv, hu, ho⟩
    have hoption : parseOption access p = .ok (k.storeState v) :=
      (parseOption_number hp).2 ⟨v, hv, rfl⟩
    exact ⟨_, (parseOptions_insert hafter).2 ⟨_, u, hoption, hu, rfl⟩, ho⟩

theorem CommandLine.target_eq_pid {line : CommandLine} : line.target = .pid ↔
    line.targetType ≠ some (bytes "bess") ∧
      (line.netnsType = none ∨ line.netnsType = some defaultNetnsType) := by
  unfold CommandLine.target
  split_ifs <;> simp only [false_iff, true_iff] <;> tauto

theorem CommandLine.target_eq_tapfd {line : CommandLine} : line.target = .tapfd ↔
    line.targetType ≠ some (bytes "bess") ∧
      ¬ (line.netnsType = none ∨ line.netnsType = some defaultNetnsType) ∧
      line.netnsType = some (bytes "tapfd") := by
  unfold CommandLine.target
  split_ifs <;> simp only [false_iff, true_iff] <;> tauto

/-- Such an argument is read first. -/
theorem NumberArg.OfTarget.selectNetns {line : CommandLine} (hk : k.OfTarget line)
    (hcopied : Copied line o) (access : Bytes → Bool) (s : Bytes) :
    o.targetType ≠ some (bytes "bess") ∧
      selectNetns access o s = k.read s >>= fun v => .ok (k.store v o) := by
  cases k with
  | exitFd | readyFd | mtu => cases hk
  | pid =>
    obtain ⟨hbess, hpid⟩ := CommandLine.target_eq_pid.1 hk
    rw [← hcopied.targetType] at hbess
    rw [← hcopied.netnsType] at hpid
    refine ⟨hbess, ?_⟩
    rw [Slirp4netns.selectNetns, if_pos hpid]
    rfl
  | tapfd =>
    obtain ⟨hbess, hpid, hfd⟩ := CommandLine.target_eq_tapfd.1 hk
    rw [← hcopied.targetType] at hbess
    rw [← hcopied.netnsType] at hpid hfd
    refine ⟨hbess, ?_⟩
    rw [Slirp4netns.selectNetns, if_neg hpid, if_pos hfd]
    rfl

/-- A number as the first argument that is not an option. -/
theorem parseArgs_ofTarget (hk : k.OfTarget ⟨opts, args⟩) :
    parseArgs access ⟨opts, s :: args⟩ = .ok o ↔
      ∃ v u o₁, k.read s = .ok v ∧ parseOptions access opts .init = .ok u ∧
        copyOptargs u = .ok o₁ ∧ ¬ (o₁.targetType.isSome ∧ o₁.targetType ≠ some (bytes "netns")) ∧
        selectTapname (k.store v o₁) args = .ok o := by
  have hnetns : ∀ {u o₁}, parseOptions access opts .init = .ok u → copyOptargs u = .ok o₁ →
      ((if o₁.targetType = some (bytes "bess") then bessMode o₁ (s :: args)
        else netnsMode access o₁ (s :: args)) = .ok o ↔
      ¬ (o₁.targetType.isSome ∧ o₁.targetType ≠ some (bytes "netns")) ∧
        ∃ v, k.read s = .ok v ∧ selectTapname (k.store v o₁) args = .ok o) := by
    intro u o₁ hu ho₁
    obtain ⟨hbess, hselect⟩ := hk.selectNetns (copyOptargs_copied hu ho₁) access s
    rw [if_neg hbess, netnsMode]
    split
    · next hbad => simp [hbad]
    · next hgood =>
      simp only [hselect, Except.bind_eq_ok, hgood, not_false_eq_true, true_and]
      constructor
      · rintro ⟨_, ⟨v, hv, ⟨⟩⟩, ho⟩
        exact ⟨v, hv, ho⟩
      · rintro ⟨v, hv, ho⟩
        exact ⟨_, ⟨v, hv, rfl⟩, ho⟩
  rw [parseArgs_ok_iff]
  constructor
  · rintro ⟨u, hu, ho⟩
    obtain ⟨o₁, ho₁, ho⟩ := Except.bind_eq_ok.1 ho
    obtain ⟨hgood, v, hv, ho⟩ := (hnetns hu ho₁).1 ho
    exact ⟨v, u, o₁, hv, hu, ho₁, hgood, ho⟩
  · rintro ⟨v, u, o₁, hv, hu, ho₁, hgood, ho⟩
    exact ⟨u, hu, Except.bind_eq_ok.2 ⟨o₁, ho₁, (hnetns hu ho₁).2 ⟨hgood, v, hv, ho⟩⟩⟩

theorem NumberArg.inRange_of_read (h : k.read s = .ok v) : k.InRange v := by
  obtain ⟨-, -, -, hrange⟩ := NumberArg.read_ok.1 h
  exact hrange

/-- The last step stores the name of the tap, if the target is not a TAPFD, and nothing else. -/
theorem NumberArg.OfTarget.selectTapname {line : CommandLine} {o₁ : Options} {w : ℤ}
    (hk : k.OfTarget line) (hcopied : Copied line o₁) (hv : k.InRange v) (hw : k.InRange w)
    (h : selectTapname (k.store v o₁) args = .ok o) :
    k.field o = v ∧ selectTapname (k.store w o₁) args = .ok (k.store w o) := by
  cases k with
  | exitFd | readyFd | mtu => cases hk
  | pid =>
    have hneg : ¬ o₁.tapfd ≥ 0 := by rw [hcopied.tapfd]; decide
    cases args with
    | nil => simp [Slirp4netns.selectTapname, NumberArg.store, hneg] at h
    | cons tapname rest =>
      simp only [Slirp4netns.selectTapname, NumberArg.store, hneg, if_false] at h ⊢
      cases h
      exact ⟨rfl, rfl⟩
  | tapfd =>
    obtain rfl := selectTapname_of_nonneg h hv.1
    exact ⟨rfl, if_pos hw.1⟩

/-- The argument is read, and the field has what was read. -/
theorem NumberArg.read_of_parseArgs (hfits : k.Fits c)
    (h : parseArgs access (k.line c s) = .ok o) : k.read s = .ok (k.field o) := by
  have hoption : ∀ {p : Opt}, k.opt s = some p → (∀ o ∈ c.after, o.code ≠ p.code) →
      parseArgs access ⟨c.before ++ p :: c.after, c.args⟩ = .ok o → k.read s = .ok (k.field o) := by
    intro p hp hafter h
    obtain ⟨v, u, hv, -, ho⟩ := (parseArgs_option hp hafter).1 h
    -- storing the same number again changes nothing
    have hagain := afterLoop_store (NumberArg.isSome_opt hp) access c.args v (k.storeState v u)
    rw [k.storeState_storeState, ho] at hagain
    rw [hv, Except.ok.inj hagain, k.field_store (k.inRange_of_read hv)]
  have htarget : k.OfTarget ⟨c.before ++ c.after, c.args⟩ →
      parseArgs access ⟨c.before ++ c.after, s :: c.args⟩ = .ok o → k.read s = .ok (k.field o) := by
    intro hk h
    obtain ⟨v, u, o₁, hv, hu, ho₁, -, ho⟩ := (parseArgs_ofTarget hk).1 h
    have hrange := k.inRange_of_read hv
    rw [hv, (hk.selectTapname (copyOptargs_copied hu ho₁) hrange hrange ho).1]
  cases k with
  | exitFd | readyFd | mtu => exact hoption rfl hfits h
  | pid | tapfd => exact htarget hfits h

/-- Any other argument that is read takes its place. -/
theorem NumberArg.parseArgs_of_read (hfits : k.Fits c)
    (h : parseArgs access (k.line c s₀) = .ok o₀) (hread : k.read s = .ok v) :
    parseArgs access (k.line c s) = .ok (k.store v o₀) := by
  have hoption : ∀ {p p₀ : Opt}, k.opt s = some p → k.opt s₀ = some p₀ →
      (∀ o ∈ c.after, o.code ≠ p.code) → (∀ o ∈ c.after, o.code ≠ p₀.code) →
      parseArgs access ⟨c.before ++ p₀ :: c.after, c.args⟩ = .ok o₀ →
      parseArgs access ⟨c.before ++ p :: c.after, c.args⟩ = .ok (k.store v o₀) := by
    intro p p₀ hp hp₀ hafter hafter₀ h
    obtain ⟨v₀, u, -, hu, ho⟩ := (parseArgs_option hp₀ hafter₀).1 h
    refine (parseArgs_option hp hafter).2 ⟨v, u, hread, hu, ?_⟩
    have hstore := afterLoop_store (NumberArg.isSome_opt hp) access c.args v (k.storeState v₀ u)
    rw [k.storeState_storeState, ho] at hstore
    exact hstore
  have htarget : k.OfTarget ⟨c.before ++ c.after, c.args⟩ →
      parseArgs access ⟨c.before ++ c.after, s₀ :: c.args⟩ = .ok o₀ →
      parseArgs access ⟨c.before ++ c.after, s :: c.args⟩ = .ok (k.store v o₀) := by
    intro hk h
    obtain ⟨v₀, u, o₁, hv₀, hu, ho₁, hgood, ho⟩ := (parseArgs_ofTarget hk).1 h
    refine (parseArgs_ofTarget hk).2 ⟨v, u, o₁, hread, hu, ho₁, hgood, ?_⟩
    exact (hk.selectTapname (copyOptargs_copied hu ho₁) (k.inRange_of_read hv₀)
      (k.inRange_of_read hread) ho).2
  cases k with
  | exitFd | readyFd | mtu => exact hoption rfl rfl hfits hfits h
  | pid | tapfd => exact htarget hfits h

end

theorem NumberArg.InRange.narrow {k : NumberArg} {n : ℤ} (h : k.InRange n) : k.narrow n = n := by
  obtain ⟨hmin, hmax⟩ := h
  cases k with
  | exitFd | readyFd | pid | tapfd =>
    simp only [NumberArg.min, NumberArg.max] at hmin hmax
    exact wrapInt_of_isInt ⟨by unfold intMin; omega, hmax⟩
  | mtu =>
    simp only [NumberArg.min, NumberArg.max] at hmin hmax
    exact Int.emod_eq_of_lt (by omega) (by omega)

theorem NumberArg.InRange.long {k : NumberArg} {n : ℤ} (h : k.InRange n) :
    longMin ≤ n ∧ n ≤ longMax := by
  obtain ⟨hmin, hmax⟩ := h
  unfold longMin longMax
  cases k <;> simp only [NumberArg.min, NumberArg.max, intMax] at hmin hmax <;> omega

/-- What is expected of a number: exactly the numerals of the range are accepted, and what they
    denote is stored. -/
structure NumberLaw (access : Bytes → Bool) (k : NumberArg) (c : Slot) (s : Bytes) : Prop where
  accepted : (∃ o, parseArgs access (k.line c s) = .ok o) ↔ ∃ n, Numeral s n ∧ k.InRange n
  stored : ∀ o, parseArgs access (k.line c s) = .ok o → ∀ n, Numeral s n → k.field o = n

/-- No numeral comes into the range by narrowing, and there is a text unless 0 is out of range. -/
def NumberArg.Plain (k : NumberArg) (s : Bytes) : Prop :=
  (s = [] → ¬ k.InRange 0) ∧
    ∀ n, Numeral s n → longMin ≤ n → n ≤ longMax → k.InRange (k.narrow n) → k.InRange n

/-- **The numbers of the command line**: wherever a number stands in a command line, a text is
    taken as expected exactly if it is plain. -/
theorem number_arguments (access : Bytes → Bool) (k : NumberArg) (c : Slot) (hfits : k.Fits c)
    (s₀ : Bytes) (o₀ : Options) (hok : parseArgs access (k.line c s₀) = .ok o₀) (s : Bytes) :
    NumberLaw access k c s ↔ k.Plain s := by
  have haccepted : (∃ o, parseArgs access (k.line c s) = .ok o) ↔ ∃ v, k.read s = .ok v :=
    ⟨fun ⟨o, ho⟩ => ⟨_, k.read_of_parseArgs hfits ho⟩,
      fun ⟨v, hv⟩ => ⟨_, k.parseArgs_of_read hfits hok hv⟩⟩
  constructor
  · intro hlaw
    have hnumeral : ∀ n, strtolExact s = some n → k.InRange (k.narrow n) →
        ∃ m, Numeral s m ∧ k.InRange m := fun n hn hrange =>
      hlaw.accepted.1 (haccepted.2 ⟨_, NumberArg.read_ok.2 ⟨n, hn, rfl, hrange⟩⟩)
    constructor
    · rintro rfl hzero
      obtain ⟨m, hm, -⟩ := hnumeral 0 rfl (by rwa [hzero.narrow])
      exact not_numeral_nil hm
    · intro n hn hmin hmax hrange
      obtain ⟨m, hm, hm'⟩ := hnumeral n (strtolExact_iff.2 (.inl ⟨hn, hmin, hmax⟩)) hrange
      exact hn.unique hm ▸ hm'
  · rintro ⟨hempty, hplain⟩
    -- what is read is the numeral, since the other case is excluded
    have hread : ∀ v, k.read s = .ok v → Numeral s v ∧ k.InRange v := by
      intro v hv
      obtain ⟨n, hn, rfl, hrange⟩ := NumberArg.read_ok.1 hv
      rcases strtolExact_iff.1 hn with ⟨hnumeral, hmin, hmax⟩ | ⟨rfl, rfl⟩
      · have hinRange := hplain n hnumeral hmin hmax hrange
        rw [hinRange.narrow]
        exact ⟨hnumeral, hinRange⟩
      · have hzero : k.narrow 0 = 0 := by cases k <;> rfl
        exact absurd (hzero ▸ hrange) (hempty rfl)
    constructor
    · rw [haccepted]
      constructor
      · rintro ⟨v, hv⟩
        exact ⟨v, hread v hv⟩
      · rintro ⟨n, hn, hrange⟩
        have hlong := strtolExact_iff.2 (.inl ⟨hn, hrange.long⟩)
        exact ⟨n, NumberArg.read_ok.2 ⟨n, hlong, hrange.narrow.symm, hrange⟩⟩
    · intro o ho n hn
      exact (hread _ (k.read_of_parseArgs hfits ho)).1.unique hn

/-- `--mtu=1500 42 tap0` -/
theorem number_arguments_mtu :
    NumberLaw (fun _ => true) .mtu ⟨[], [], [bytes "42", bytes "tap0"]⟩ (bytes "1500") := by
  have hnumeral : Numeral (bytes "1500") 1500 :=
    numeral_of_readNumeral (by decide +kernel : readNumeral (bytes "1500") = some (false, 1500, []))
  refine (number_arguments _ _ _ ?_ (bytes "1500") _ rfl _).2 ⟨?_, ?_⟩
  · rintro o ⟨⟩
  · rintro ⟨⟩
  · intro n hn _ _ _
    rw [← hnumeral.unique hn]
    exact ⟨by decide, by decide⟩

/-- `--exit-fd= --mtu=-4294965796 4294967338 tap0` is accepted, with the descriptor 0, an MTU of
    1500 and the PID 42; the numerals denote other numbers. -/
theorem numbers_out_of_range :
    (∃ o, parseArgs (fun _ => true) ⟨[.exitFd (bytes ""), .mtu (bytes "-4294965796")],
        [bytes "4294967338", bytes "tap0"]⟩ = .ok o ∧
      o.exitFd = 0 ∧ o.mtu = 1500 ∧ o.targetPid = 42) ∧
    (∀ n, ¬ Numeral (bytes "") n) ∧ Numeral (bytes "-4294965796") (-4294965796) ∧
    Numeral (bytes "4294967338") 4294967338 := by
  refine ⟨⟨_, rfl, rfl, rfl, rfl⟩, fun n => not_numeral_nil, ?_, ?_⟩
  · exact numeral_of_readNumeral
      (by decide +kernel : readNumeral (bytes "-4294965796") = some (true, 4294965796, []))
  · exact numeral_of_readNumeral
      (by decide +kernel : readNumeral (bytes "4294967338") = some (false, 4294967338, []))

end Slirp4netns
