/-
  UTF-8 texts: the concatenations of encoded characters.

  All bytes of a character outside of ASCII are 0x80 or more.  An ASCII byte in a
  text is therefore a character of its own, and the text can be cut there
  (`Utf8.cut`).
-/
import Slirp4netns.Lib.Bytes

/-- The UTF-8 texts. -/
def Utf8 (s : Bytes) : Prop := ∃ cs : List Char, s = cs.flatMap String.utf8EncodeChar

namespace Utf8

variable {s t : Bytes} {c : UInt8}

protected theorem nil : Utf8 [] := ⟨[], rfl⟩

protected theorem append (hs : Utf8 s) (ht : Utf8 t) : Utf8 (s ++ t) := by
  obtain ⟨cs, rfl⟩ := hs
  obtain ⟨ds, rfl⟩ := ht
  exact ⟨cs ++ ds, by rw [List.flatMap_append]⟩

theorem char (c : Char) : Utf8 (String.utf8EncodeChar c) := ⟨[c], by simp⟩

theorem ascii (hc : c.toNat < 0x80) : Utf8 [c] := by
  refine ⟨[Char.ofUInt8 c], ?_⟩
  have hv : (Char.ofUInt8 c).val.toNat = c.toNat := rfl
  rw [List.flatMap_singleton, String.utf8EncodeChar]
  simp only [hv]
  rw [if_pos (by omega), UInt8.ofNat_toNat]

/-- A character is one byte or has no ASCII byte. -/
theorem encode_cases (c : Char) :
    (∃ b, String.utf8EncodeChar c = [b]) ∨ ∀ b ∈ String.utf8EncodeChar c, 0x80 ≤ b.toNat := by
  rw [String.utf8EncodeChar]
  generalize c.val.toNat = v
  split
  · exact .inl ⟨_, rfl⟩
  · right
    split
    · simp only [List.forall_mem_cons, UInt8.toNat_ofNat']
      exact ⟨by omega, by omega, by simp⟩
    · split
      · simp only [List.forall_mem_cons, UInt8.toNat_ofNat']
        exact ⟨by omega, by omega, by omega, by simp⟩
      · simp only [List.forall_mem_cons, UInt8.toNat_ofNat']
        exact ⟨by omega, by omega, by omega, by omega, by simp⟩

/-- A text can be cut at an ASCII byte. -/
theorem cut (hc : c.toNat < 0x80) : Utf8 (s ++ c :: t) ↔ Utf8 s ∧ Utf8 t := by
  constructor
  · rintro ⟨cs, h⟩
    induction cs generalizing s with
    | nil => simp at h
    | cons d cs ih =>
      rw [List.flatMap_cons] at h
      rcases List.append_eq_append_iff.1 h with ⟨rest, hd, hrest⟩ | ⟨rest, rfl, hrest⟩
      · cases rest with
        | nil =>
          rw [List.append_nil] at hd
          exact ⟨hd ▸ char d, (ih (s := []) hrest).2⟩
        | cons e rest =>
          -- the byte is in the encoding of `d`, hence all of it
          obtain ⟨rfl, rfl⟩ := List.cons.inj hrest
          rcases encode_cases d with ⟨b, hb⟩ | hd'
          · rw [hb, eq_comm, List.append_eq_singleton_iff] at hd
            rcases hd with ⟨rfl, hrest⟩ | ⟨-, hrest⟩
            · rw [(List.cons.inj hrest).2]
              exact ⟨.nil, cs, rfl⟩
            · cases hrest
          · have := hd' c (by simp [hd])
            omega
      · obtain ⟨hr, ht⟩ := ih hrest.symm
        exact ⟨(char d).append hr, ht⟩
  · rintro ⟨hs, ht⟩
    exact hs.append ((ascii hc).append ht)

theorem cons_iff (hc : c.toNat < 0x80) : Utf8 (c :: t) ↔ Utf8 t :=
  (cut (s := []) hc).trans (and_iff_right .nil)

/-- ASCII bytes at the start can be left out. -/
theorem append_iff (hs : ∀ c ∈ s, c.toNat < 0x80) : Utf8 (s ++ t) ↔ Utf8 t := by
  induction s with
  | nil => rfl
  | cons c s ih =>
    rw [List.forall_mem_cons] at hs
    rw [List.cons_append, cons_iff hs.1, ih hs.2]

end Utf8
