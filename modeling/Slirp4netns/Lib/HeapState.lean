/-
  Programs with memory and other state, that may also stop.

  `Runs own s p post`: started in the state `s` with the blocks `own` and any others,
  however `p` ends, `post` holds of its outcome, of the state and the calls, of the
  blocks that it then has in place of `own`, and of whether an allocation has failed;
  the other blocks are as they were.  Code that only works on memory (`inside`) brings
  its triple of `Lib.Heap`, and code that only works on the other state (`beside`) its
  run.
-/
import Slirp4netns.Lib.Heap

namespace HeapProg

variable {σ ε φ φ' α β : Type}

/-- Code on memory. -/
def inside (fault : Fault → φ) (p : HeapProg α) : Prog (Heap × σ) ε φ α :=
  p.lift Prod.fst (fun t h => (h, t.2)) Empty.elim fault

/-- Code on the other state. -/
def beside (stop : φ' → φ) (p : Prog σ ε φ' α) : Prog (Heap × σ) ε φ α :=
  p.lift Prod.snd (fun t s => (t.1, s)) id stop

/-- Code on memory that returns. -/
theorem inside_of_ret {fault : Fault → φ} {p : HeapProg α} {h : Heap} {s : σ} {a : α}
    (hp : (p.run h).out = .ret a) :
    (inside fault p : Prog (Heap × σ) ε φ α).run (h, s) = ⟨.ret a, ((p.run h).st, s), []⟩ := by
  have hcalls : (p.run h).calls = [] := by
    rcases (p.run h).calls with _ | ⟨e, _⟩
    · rfl
    · exact e.elim
  simp only [inside, Prog.lift, hp, hcalls, List.map_nil]

/-- What code does that has the blocks `own`, whatever else is live. -/
def Runs (own : Multiset ℕ) (s : σ) (p : Prog (Heap × σ) ε φ α)
    (post : Outcome φ α → σ → List ε → Multiset ℕ → Bool → Prop) : Prop :=
  ∀ (h : Heap) (frame : Multiset ℕ), h.live = own + frame →
    ∃ own' bad, post (p.run (h, s)).out (p.run (h, s)).st.2 (p.run (h, s)).calls own' bad ∧
      (p.run (h, s)).st.1.live = own' + frame ∧ (p.run (h, s)).st.1.failed = (h.failed || bad)

namespace Runs

variable {own own' : Multiset ℕ} {s s' : σ} {p : Prog (Heap × σ) ε φ α}
  {q : α → Prog (Heap × σ) ε φ β}
  {post post' : Outcome φ α → σ → List ε → Multiset ℕ → Bool → Prop}
  {after : Outcome φ β → σ → List ε → Multiset ℕ → Bool → Prop}

theorem conseq (h : Runs own s p post)
    (hpost : ∀ out s' es own' bad, post out s' es own' bad → post' out s' es own' bad) :
    Runs own s p post' := by
  intro hp frame hlive
  obtain ⟨own', bad, hpost', hown, hbad⟩ := h hp frame hlive
  exact ⟨own', bad, hpost _ _ _ _ _ hpost', hown, hbad⟩

theorem of_eq (h : Runs own s p post) (heq : own' = own) : Runs own' s p post := heq ▸ h

/-- No block is there twice. -/
theorem of_nodup (h : own.Nodup → Runs own s p post) : Runs own s p post := by
  intro hp frame hlive
  refine h ?_ hp frame hlive
  exact Multiset.nodup_of_le (Multiset.le_add_right _ _) (hlive ▸ hp.nodup)

protected theorem pure {a : α} (h : post (.ret a) s [] own false) : Runs own s (pure a) post :=
  fun _ _ hlive => ⟨own, false, h, hlive, (Bool.or_false _).symm⟩

protected theorem stop {why : φ} (h : post (.stop why) s [] own false) :
    Runs own s (Prog.stop why) post :=
  fun _ _ hlive => ⟨own, false, h, hlive, (Bool.or_false _).symm⟩

protected theorem bind {mid : Outcome φ α → σ → List ε → Multiset ℕ → Bool → Prop}
    (hp : Runs own s p mid)
    (hstop : ∀ why s' es own' bad, mid (.stop why) s' es own' bad →
      after (.stop why) s' es own' bad)
    (hq : ∀ a s' es own' bad, mid (.ret a) s' es own' bad →
      Runs own' s' (q a) fun out s'' es' own'' bad' =>
        after out s'' (es ++ es') own'' (bad || bad')) : Runs own s (p >>= q) after := by
  intro h frame hlive
  obtain ⟨own', bad, hmid, hown, hbad⟩ := hp h frame hlive
  rw [Prog.bind_run, Prog.andThen]
  rcases hrun : p.run (h, s) with ⟨a | why, ⟨h', s'⟩, es⟩
  · rw [hrun] at hmid hown hbad
    obtain ⟨own'', bad', hafter, hown', hbad'⟩ := hq a s' es own' bad hmid h' frame hown
    exact ⟨own'', bad || bad', hafter, hown', hbad'.trans (by rw [hbad, Bool.or_assoc])⟩
  · rw [hrun] at hmid hown hbad
    exact ⟨own', bad, hstop why s' es own' bad hmid, hown, hbad⟩

protected theorem ite {c : Prop} [Decidable c] {p' : Prog (Heap × σ) ε φ α}
    (hp : c → Runs own s p post) (hp' : ¬ c → Runs own s p' post) :
    Runs own s (if c then p else p') post := by
  split
  · next h => exact hp h
  · next h => exact hp' h

/-- Code on memory that has a triple of its own. -/
theorem inside_bind {fault : Fault → φ} {r : HeapProg α} {mid : α → Multiset ℕ → Bool → Prop}
    (hr : Owned own r mid)
    (hq : ∀ a own' bad, mid a own' bad → Runs own' s (q a) fun out s' es own'' bad' =>
      after out s' es own'' (bad || bad')) : Runs own s (inside fault r >>= q) after := by
  intro h frame hlive
  obtain ⟨a, own', bad, hout, hmid, hown, hbad⟩ := hr h frame hlive
  obtain ⟨own'', bad', hafter, hown', hbad'⟩ := hq a own' bad hmid (r.run h).st frame hown
  have hrun : (inside fault r : Prog (Heap × σ) ε φ α).run (h, s) =
      ⟨.ret a, ((r.run h).st, s), []⟩ := inside_of_ret hout
  rw [Prog.bind_of_ret hrun]
  exact ⟨own'', bad || bad', hafter, hown', hbad'.trans (by rw [hbad, Bool.or_assoc])⟩

/-- Code that only reads memory. -/
theorem reads_bind {fault : Fault → φ} {r : HeapProg α} {blocks : Multiset ℕ} {a : α}
    (hr : Reads blocks r a) (hle : blocks ≤ own) (hq : Runs own s (q a) after) :
    Runs own s (inside fault r >>= q) after := by
  have howned : Owned own r fun a' own' bad => a' = a ∧ own' = own ∧ bad = false :=
    .of_reads hr hle ⟨rfl, rfl, rfl⟩
  refine inside_bind howned fun a' own' bad h => ?_
  obtain ⟨rfl, rfl, rfl⟩ := h
  exact hq.conseq fun _ _ _ _ _ h => h

/-- Code on the other state that returns, at the end. -/
protected theorem beside {stop : φ' → φ} {r : Prog σ ε φ' α} {a : α} {es : List ε}
    (hr : r.run s = ⟨.ret a, s', es⟩) (hpost : post (.ret a) s' es own false) :
    Runs own s (beside stop r) post := by
  intro h frame hlive
  have hrun : (HeapProg.beside stop r).run (h, s) = ⟨.ret a, (h, s'), es⟩ := by
    simp only [HeapProg.beside, Prog.lift, hr, List.map_id]
  rw [hrun]
  exact ⟨own, false, hpost, hlive, (Bool.or_false _).symm⟩

/-- Code on the other state that returns. -/
theorem beside_bind {stop : φ' → φ} {r : Prog σ ε φ' α} {a : α} {es : List ε}
    (hr : r.run s = ⟨.ret a, s', es⟩)
    (hq : Runs own s' (q a) fun out s'' es' own' bad => after out s'' (es ++ es') own' bad) :
    Runs own s (beside stop r >>= q) after := by
  intro h frame hlive
  obtain ⟨own', bad, hafter, hown, hbad⟩ := hq h frame hlive
  have hrun : (beside stop r).run (h, s) = ⟨.ret a, (h, s'), es⟩ := by
    simp only [beside, Prog.lift, hr, List.map_id]
  rw [Prog.bind_of_ret hrun]
  exact ⟨own', bad, hafter, hown, hbad⟩

/-- Code on the other state that stops the process. -/
theorem beside_stop {stop : φ' → φ} {r : Prog σ ε φ' α} {why : φ'} {es : List ε}
    (hr : r.run s = ⟨.stop why, s', es⟩) (hafter : after (.stop (stop why)) s' es own false) :
    Runs own s (beside stop r >>= q) after := by
  intro h frame hlive
  have hrun : (beside stop r).run (h, s) = ⟨.stop (stop why), (h, s'), es⟩ := by
    simp only [beside, Prog.lift, hr, List.map_id]
  rw [Prog.bind_of_stop hrun]
  exact ⟨own, false, hafter, hlive, (Bool.or_false _).symm⟩

/-- The program returns `a`, with one state, one list of calls and one set of blocks. -/
def Exactly (a : α) (s : σ) (es : List ε) (own : Multiset ℕ) :
    Outcome φ α → σ → List ε → Multiset ℕ → Bool → Prop :=
  fun out s' es' own' bad => out = .ret a ∧ s' = s ∧ es' = es ∧ own' = own ∧ bad = false

theorem exactly_bind {a : α} {es : List ε} (hp : Runs own s p (Exactly a s' es own'))
    (hq : Runs own' s' (q a) fun out s'' es' own'' bad => after out s'' (es ++ es') own'' bad) :
    Runs own s (p >>= q) after := by
  refine hp.bind (fun _ _ _ _ _ h => ?_) fun a' s₁ es₁ own₁ bad₁ h => ?_
  · cases h.1
  · obtain ⟨ha, rfl, rfl, rfl, rfl⟩ := h
    cases ha
    exact hq.conseq fun _ _ _ _ _ h => h

end Runs

end HeapProg
