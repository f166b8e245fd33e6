/-
  Code that writes a text into a buffer, or only counts its length.

  A `BufWriter` has a buffer or none, the position in it, and the number of items so
  far, which must not exceed a limit.  `Writes s p t post`: started where there is
  room for `t` and one item more, `p` puts `t` behind what is there already, without
  a store outside of the buffer, and counts it; then `post` holds.  There is one rule
  for each way of building such code.
-/
import Slirp4netns.Lib.Heap

/-- The place where a text is written; without a buffer it is only counted. -/
structure BufWriter (α : Type) where
  /-- the block of the buffer, and what it holds -/
  dst : Option (ℕ × List α)
  pos : ℕ
  total : ℕ

namespace BufWriter

open HeapProg

variable {α : Type} (limit : ℕ)

/-- Store `data` at the position, and move on by `n`. -/
def store (data : List α) (n : ℕ) (w : BufWriter α) : HeapProg (BufWriter α) :=
  if limit < w.total + n then Prog.stop .overflow
  else
    match w.dst with
    | none => return { w with total := w.total + n }
    | some (b, mem) => do
      access b
      if w.pos + data.length ≤ mem.length then
        return ⟨some (b, mem.take w.pos ++ data ++ mem.drop (w.pos + data.length)), w.pos + n,
          w.total + n⟩
      else Prog.stop .outOfBounds

/-- The state of a caller when a function has written from its position on. -/
def resume (w r : BufWriter α) : BufWriter α :=
  ⟨r.dst, if r.dst.isSome then w.pos + r.total else w.pos, w.total + r.total⟩

/-- A function with a count of its own, which is added to that of the caller. -/
def call (p : BufWriter α → HeapProg (BufWriter α)) (w : BufWriter α) : HeapProg (BufWriter α) := do
  let r ← p { w with total := 0 }
  if limit < w.total + r.total then Prog.stop .overflow else return w.resume r

/-- Code under an `if`. -/
def when (c : Prop) [Decidable c] (p : BufWriter α → HeapProg (BufWriter α)) (w : BufWriter α) :
    HeapProg (BufWriter α) := if c then p w else pure w

/-! ## What is written -/

/-- There is room for `t` and one item more, in a buffer that is one of the blocks `s`. -/
structure Room (s : Multiset ℕ) (w : BufWriter α) (t : List α) : Prop where
  total_le : w.total + t.length ≤ limit
  block : ∀ b mem, w.dst = some (b, mem) → b ∈ s ∧ w.pos + t.length + 1 ≤ mem.length

/-- `t` is behind what was there before. -/
structure Wrote (w : BufWriter α) (t : List α) (w' : BufWriter α) : Prop where
  total_eq : w'.total = w.total + t.length
  none : w.dst = none → w'.dst = none
  some : ∀ b mem, w.dst = some (b, mem) → w'.pos = w.pos + t.length ∧
    ∃ mem', w'.dst = some (b, mem') ∧ mem'.length = mem.length ∧
      mem'.take w'.pos = mem.take w.pos ++ t

/-- The item `z` is behind the text. -/
def Ended (z : α) (w : BufWriter α) : Prop :=
  ∀ b mem, w.dst = some (b, mem) → mem[w.pos]? = some z

/-- `p` writes `t`. -/
def Writes (s : Multiset ℕ) (p : BufWriter α → HeapProg (BufWriter α)) (t : List α)
    (post : BufWriter α → Prop) : Prop :=
  ∀ w, Room limit s w t → ∃ w', Reads s (p w) w' ∧ Wrote w t w' ∧ post w'

variable {limit} {s : Multiset ℕ} {p q : BufWriter α → HeapProg (BufWriter α)} {a b t : List α}
  {post post' : BufWriter α → Prop} {z : α}

theorem Wrote.refl (w : BufWriter α) : Wrote w [] w :=
  ⟨rfl, id, fun _ mem h => ⟨rfl, mem, h, rfl, (List.append_nil _).symm⟩⟩

theorem Wrote.trans {w₁ w₂ w₃ : BufWriter α} (h : Wrote w₁ a w₂) (h' : Wrote w₂ b w₃) :
    Wrote w₁ (a ++ b) w₃ := by
  refine ⟨?_, fun hnone => h'.none (h.none hnone), fun c mem hmem => ?_⟩
  · rw [h'.total_eq, h.total_eq, List.length_append, Nat.add_assoc]
  · obtain ⟨hpos, mem₂, hmem₂, hlen, htake⟩ := h.some c mem hmem
    obtain ⟨hpos', mem₃, hmem₃, hlen', htake'⟩ := h'.some c mem₂ hmem₂
    refine ⟨by rw [hpos', hpos, List.length_append, Nat.add_assoc], mem₃, hmem₃,
      hlen'.trans hlen, ?_⟩
    rw [htake', htake, List.append_assoc]

theorem Room.left {w : BufWriter α} (h : Room limit s w (a ++ b)) : Room limit s w a := by
  obtain ⟨htotal, hblock⟩ := h
  rw [List.length_append] at htotal hblock
  refine ⟨by omega, fun c mem hmem => ?_⟩
  obtain ⟨hc, hroom⟩ := hblock c mem hmem
  exact ⟨hc, by omega⟩

theorem Room.right {w w' : BufWriter α} (h : Room limit s w (a ++ b)) (hw : Wrote w a w') :
    Room limit s w' b := by
  obtain ⟨htotal, hblock⟩ := h
  rw [List.length_append] at htotal hblock
  refine ⟨by rw [hw.total_eq]; omega, fun c mem' hmem' => ?_⟩
  cases hdst : w.dst with
  | none => rw [hw.none hdst] at hmem'; cases hmem'
  | some v =>
    obtain ⟨c', mem⟩ := v
    obtain ⟨hc, hroom⟩ := hblock c' mem hdst
    obtain ⟨hpos, mem₂, hmem₂, hlen, -⟩ := hw.some c' mem hdst
    rw [hmem'] at hmem₂
    cases hmem₂
    exact ⟨hc, by rw [hpos, hlen]; omega⟩

namespace Writes

theorem conseq (h : Writes limit s p t post) (hpost : ∀ w, post w → post' w) :
    Writes limit s p t post' := by
  intro w hroom
  obtain ⟨w', hreads, hw, hw'⟩ := h w hroom
  exact ⟨w', hreads, hw, hpost w' hw'⟩

theorem skip : Writes limit s pure ([] : List α) fun _ => True :=
  fun w _ => ⟨w, .pure, .refl w, trivial⟩

protected theorem bind (hp : Writes limit s p a fun _ => True) (hq : Writes limit s q b post) :
    Writes limit s (fun w => p w >>= q) (a ++ b) post := by
  intro w hroom
  obtain ⟨w₁, hreads, hw, -⟩ := hp w hroom.left
  obtain ⟨w₂, hreads', hw', hpost⟩ := hq w₁ (hroom.right hw)
  exact ⟨w₂, .bind hreads hreads', hw.trans hw', hpost⟩

/-- Code that looks at something first. -/
theorem reads_bind {β : Type} {r : HeapProg β} {c : β} {q : β → BufWriter α → HeapProg (BufWriter α)}
    (hr : Reads s r c) (hq : Writes limit s (q c) t post) :
    Writes limit s (fun w => r >>= fun x => q x w) t post := by
  intro w hroom
  obtain ⟨w', hreads, hw, hpost⟩ := hq w hroom
  exact ⟨w', .bind hr hreads, hw, hpost⟩

/-- Something that is written on a condition. -/
protected theorem when {c d : Prop} [Decidable c] [Decidable d] (hcd : c ↔ d)
    (hp : Writes limit s p t fun _ => True) :
    Writes limit s (BufWriter.when c p) (if d then t else []) fun _ => True := by
  unfold BufWriter.when
  by_cases hd : d
  · simpa only [if_pos (hcd.2 hd), if_pos hd] using hp
  · simpa only [if_neg (mt hcd.1 hd), if_neg hd] using skip

/-- A text is stored, with an item behind it or none. -/
theorem of_store (t rest : List α) (hrest : rest.length ≤ 1) :
    Writes limit s (store limit (t ++ rest) t.length) t fun w => ∀ z ∈ rest, Ended z w := by
  intro w hroom
  unfold store
  rw [if_neg (Nat.not_lt.2 hroom.total_le)]
  cases hdst : w.dst with
  | none =>
    refine ⟨_, .pure, ⟨rfl, fun _ => rfl, fun b mem h => ?_⟩, fun z _ b mem h => ?_⟩
    · rw [hdst] at h
      cases h
    · cases h
  | some v =>
    obtain ⟨c, mem⟩ := v
    obtain ⟨hc, hfits⟩ := hroom.block c mem hdst
    have hle : w.pos + (t ++ rest).length ≤ mem.length := by
      rw [List.length_append]
      omega
    have hpos : (mem.take w.pos).length = w.pos := List.length_take_of_le (by omega)
    simp only
    refine ⟨_, .bind (.access hc) (by rw [if_pos hle]; exact .pure), ⟨rfl, fun h => ?_, ?_⟩, ?_⟩
    · rw [hdst] at h
      cases h
    · intro c' mem' h
      rw [hdst] at h
      cases h
      refine ⟨rfl, _, rfl, ?_, ?_⟩
      · rw [List.length_append, List.length_append, hpos, List.length_drop]
        omega
      · rw [List.append_assoc, List.append_assoc, ← List.append_assoc]
        exact List.take_left' (by rw [List.length_append, hpos])
    · intro z hz c' mem' h
      obtain ⟨rfl, rfl⟩ := Prod.mk.inj (Option.some.inj h)
      obtain rfl : rest = [z] := by
        match rest, hrest, hz with
        | [y], _, hz => rw [List.mem_singleton.1 hz]
      have hlen : (mem.take w.pos ++ t).length = w.pos + t.length := by
        rw [List.length_append, hpos]
      have hsplit : mem.take w.pos ++ (t ++ [z]) ++ mem.drop (w.pos + (t ++ [z]).length) =
          (mem.take w.pos ++ t) ++ z :: mem.drop (w.pos + (t ++ [z]).length) := by simp
      show (_ : List α)[w.pos + t.length]? = some z
      rw [hsplit, List.getElem?_append_right (by rw [hlen]), hlen, Nat.sub_self]
      rfl

/-- A text with `z` behind it. -/
theorem ended_store (t : List α) (z : α) :
    Writes limit s (store limit (t ++ [z]) t.length) t (Ended z) :=
  (of_store t [z] le_rfl).conseq fun _ h => h z (List.mem_singleton_self z)

theorem item_store (c : α) : Writes limit s (store limit [c] 1) [c] fun _ => True :=
  (of_store [c] [] (Nat.zero_le _)).conseq fun _ _ => trivial

/-- What a function writes, its caller writes. -/
protected theorem call (h : Writes limit s p t (Ended z)) :
    Writes limit s (call limit p) t (Ended z) := by
  intro w hroom
  obtain ⟨r, hreads, hr, hended⟩ := h { w with total := 0 }
    ⟨by have := hroom.total_le; simp only; omega, hroom.block⟩
  have htotal : r.total = t.length := by rw [hr.total_eq]; exact Nat.zero_add _
  have hfits : ¬ limit < w.total + r.total := by
    rw [htotal]
    exact Nat.not_lt.2 hroom.total_le
  refine ⟨w.resume r, .bind hreads (by rw [if_neg hfits]; exact .pure), ⟨?_, fun hnone => hr.none hnone, fun b mem hmem => ?_⟩,
    fun b mem hmem => ?_⟩
  · rw [resume, htotal]
  · obtain ⟨hpos, mem', hmem', hlen, htake⟩ := hr.some b mem hmem
    have hpos' : (w.resume r).pos = r.pos := by
      rw [resume, hmem', hpos, htotal]
      rfl
    exact ⟨hpos'.trans hpos, mem', hmem', hlen, hpos' ▸ htake⟩
  · have hdst : r.dst = some (b, mem) := hmem
    have hpos' : (w.resume r).pos = r.pos := by
      cases hw : w.dst with
      | none =>
        rw [hr.none hw] at hdst
        cases hdst
      | some v =>
        obtain ⟨hpos, -⟩ := hr.some v.1 v.2 hw
        rw [resume, hdst, hpos, htotal]
        rfl
    rw [hpos']
    exact hended b mem hdst

end Writes

end BufWriter
