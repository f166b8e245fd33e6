/-
  slirp4netns formalization — the request buffer.

  `ctx->buf` is allocated once, never cleared, and used for every request.
  What it holds when `api_handler` is called does not matter:

  * `apiHandler_agree`: on two contexts that differ in the buffer only, the
    handler makes the same calls, ends in the same way and leaves contexts
    that again differ in the buffer only;
  * `apiHandler_buf`: it stores the message at the start of the buffer and,
    if there is room, the terminator behind it, and nothing else.
-/
import Slirp4netns.Api.Message

namespace Slirp4netns

variable {L : Libslirp}

/-! ## Contexts that differ in the buffer -/

/-- The two contexts agree on everything that is not the buffer. -/
structure ApiCtx.SameButBuf (ctx ctx' : ApiCtx) : Prop where
  hostfwds : ctx.hostfwds = ctx'.hostfwds
  nextid : ctx.hostfwdsNextid = ctx'.hostfwdsNextid
  cfg : ctx.cfg = ctx'.cfg

/-- The same with libslirp in the same state. -/
structure ApiState.SameButBuf (s s' : ApiState L) : Prop where
  ctx : s.ctx.SameButBuf s'.ctx
  slirp : s.slirp = s'.slirp

theorem ApiState.sameButBuf_iff {s s' : ApiState L} :
    s.SameButBuf s' ↔ s.registry = s'.registry ∧ s.ctx.cfg = s'.ctx.cfg := by
  constructor
  · rintro ⟨⟨hfwds, hid, hcfg⟩, hslirp⟩
    refine ⟨?_, hcfg⟩
    simp only [ApiState.registry, hfwds, hid, hslirp]
  · rintro ⟨hreg, hcfg⟩
    exact ⟨⟨congrArg Registry.hostfwds hreg, congrArg Registry.nextid hreg, hcfg⟩,
      congrArg Registry.slirp hreg⟩

/-! ## One request -/

/-- `serve` stops at a null pointer or an overflow only. -/
theorem serve_in_bounds (C : Libc) (cfg : Slirp4netnsConfig) (req : Request) (r : Registry L) :
    (serve C cfg req r).reply ≠ .stop .outOfBounds := by
  cases req with
  | bad e => simp [serve]
  | list => simp [serve]
  | add jo =>
    simp only [serve, serveAdd]
    cases checkAdd C cfg jo with
    | crash => simp
    | refuse e => simp
    | accept fwd =>
      simp only [register]
      split
      · simp
      · split <;> simp
  | remove jo =>
    simp only [serve, serveRemove]
    split
    · simp
    · split <;> simp

/-- What `read` and the terminator leave in a buffer. -/
def bufAfter (buf data : Bytes) : Bytes :=
  if data.length < buf.length then data ++ 0 :: buf.drop (data.length + 1) else data

theorem ApiState.received_buf {s : ApiState L} {data : Bytes} (h : data.length ≤ 4096) :
    (s.received data h).ctx.buf = bufAfter s.ctx.buf data := by
  have hlen : s.ctx.buf.length = 4096 := s.ctx.buf_length.trans s.ctx.buflen_eq
  unfold ApiState.received ApiCtx.received bufAfter
  by_cases hl : data.length = 4096
  · have hdrop : s.ctx.buf.drop data.length = [] := List.drop_eq_nil_of_le (by omega)
    have hnlt : ¬ data.length < s.ctx.buf.length := by omega
    simp only [if_pos hl, if_neg hnlt, ApiCtx.store, hdrop, List.append_nil]
  · have hlt : data.length < s.ctx.buf.length := by omega
    simp only [if_neg hl, if_pos hlt, ApiCtx.store, ApiCtx.terminate]
    rw [List.drop_eq_getElem_cons hlt, List.set_append_right _ _ (le_refl _), Nat.sub_self,
      List.set_cons_zero]

/-- **Where `api_handler` stores**: a message that was read, at the start of the buffer, and
    the terminator behind it if there is room. -/
theorem apiHandler_buf (C : Libc) (conn : Conn) (s : ApiState L) :
    ((apiHandler C conn).run s).out ≠ .stop .outOfBounds ∧
      ((apiHandler C conn).run s).st.ctx.buf =
        (conn.message.map (bufAfter s.ctx.buf)).getD s.ctx.buf := by
  cases hm : conn.message with
  | none =>
    rw [apiHandler_unserved_run C conn (Conn.message_eq_none.1 hm)]
    exact ⟨by simp, rfl⟩
  | some data =>
    obtain ⟨ha, hd⟩ := Conn.message_eq_some.1 hm
    have hin := serve_in_bounds C s.ctx.cfg (requestOf C data) s.registry
    have hbuf := ApiState.received_buf (s := s) (Conn.readBytes_length hd)
    rw [apiHandler_served C conn ha hd]
    unfold Done.handled
    generalize serve C s.ctx.cfg (requestOf C data) s.registry = d at hin ⊢
    obtain ⟨calls, reg, reply | why⟩ := d
    · exact ⟨by simp, hbuf⟩
    · exact ⟨by simpa using hin, hbuf⟩

/-- **The buffer does not matter.** -/
theorem apiHandler_agree (C : Libc) (conn : Conn) {s s' : ApiState L} (h : s.SameButBuf s') :
    ((apiHandler C conn).run s).out = ((apiHandler C conn).run s').out ∧
      ((apiHandler C conn).run s).calls = ((apiHandler C conn).run s').calls ∧
      ((apiHandler C conn).run s).st.SameButBuf ((apiHandler C conn).run s').st := by
  cases hm : conn.message with
  | none =>
    have hu := Conn.message_eq_none.1 hm
    rw [apiHandler_unserved_run C conn hu, apiHandler_unserved_run C conn hu]
    exact ⟨rfl, rfl, h⟩
  | some data =>
    obtain ⟨ha, hd⟩ := Conn.message_eq_some.1 hm
    obtain ⟨hreg, hcfg⟩ := ApiState.sameButBuf_iff.1 h
    rw [apiHandler_served C conn ha hd, apiHandler_served C conn ha hd, hreg, hcfg]
    -- the service is given neither buffer
    have hagree : ∀ reg : Registry L,
        ((s.received data (Conn.readBytes_length hd)).withRegistry reg).SameButBuf
          ((s'.received data (Conn.readBytes_length hd)).withRegistry reg) := by
      intro reg
      refine ApiState.sameButBuf_iff.2 ⟨rfl, ?_⟩
      show (s.received data _).ctx.cfg = (s'.received data _).ctx.cfg
      rw [ApiState.received_cfg, ApiState.received_cfg, hcfg]
    unfold Done.handled
    rcases serve C s'.ctx.cfg (requestOf C data) s'.registry with ⟨calls, reg, reply | why⟩
    · exact ⟨rfl, rfl, hagree reg⟩
    · exact ⟨rfl, rfl, hagree reg⟩

/-! ## Any number of requests -/

theorem ApiStep.agree {C : Libc} {s s' u : ApiState L} {h : Handled} (hs : s.SameButBuf s')
    (hstep : ApiStep C s h u) : ∃ u', ApiStep C s' h u' ∧ u.SameButBuf u' := by
  unfold ApiStep at hstep
  obtain ⟨hout, hcalls, hst⟩ := apiHandler_agree C h.conn hs
  rw [hstep] at hout hcalls hst
  have hstep' := ApiStep.of_out h.rc hout.symm
  rw [← hcalls] at hstep'
  exact ⟨_, hstep', hst⟩

/-- **Nothing of an earlier request is in a later one.**  For two contexts that agree on the
    forwards, the next id and the configuration, with any contents of the buffers, every
    connection is handled alike, up to the bytes of the buffers that no message has reached, and
    so is every sequence of connections. -/
theorem buffer_independent (C : Libc) (slirp : L.State) {ctx ctx' : ApiCtx}
    (h : ctx.SameButBuf ctx') :
    (∀ conn : Conn,
      let ran := (apiHandler C conn).run ⟨ctx, slirp⟩
      let ran' := (apiHandler C conn).run ⟨ctx', slirp⟩
      ran.out ≠ .stop .outOfBounds ∧
      ran.st.ctx.buf = (conn.message.map (bufAfter ctx.buf)).getD ctx.buf ∧
      ran.out = ran'.out ∧ ran.calls = ran'.calls ∧ ran.st.ctx.SameButBuf ran'.st.ctx ∧
      ran.st.slirp = ran'.st.slirp) ∧
    ∀ (hs : List Handled) (s : ApiState L), Run (ApiStep C) ⟨ctx, slirp⟩ hs s →
      ∃ s' : ApiState L, Run (ApiStep C) ⟨ctx', slirp⟩ hs s' ∧ s.ctx.SameButBuf s'.ctx ∧
        s.slirp = s'.slirp := by
  have hs : ApiState.SameButBuf (L := L) ⟨ctx, slirp⟩ ⟨ctx', slirp⟩ := ⟨h, rfl⟩
  constructor
  · intro conn ran ran'
    obtain ⟨hin, hbuf⟩ := apiHandler_buf C conn ⟨ctx, slirp⟩
    obtain ⟨hout, hcalls, hst⟩ := apiHandler_agree C conn hs
    exact ⟨hin, hbuf, hout, hcalls, hst.ctx, hst.slirp⟩
  · intro hs' s hrun
    obtain ⟨s', hrun', hst⟩ := hrun.simulate hs ApiStep.agree
    exact ⟨s', hrun', hst.ctx, hst.slirp⟩

/-- A fresh buffer of zeros, and one full of letters. -/
theorem buffer_independent_fresh :
    let ctx := apiCtxAlloc sampleStart.cfg fun _ => 0
    let ctx' := apiCtxAlloc sampleStart.cfg fun _ => 65
    ctx.SameButBuf ctx' ∧ ctx.buf ≠ ctx'.buf ∧ ∀ conn : Conn,
      ((apiHandler Libc.exact conn).run (⟨ctx, sampleStart.slirp⟩ : ApiState _)).calls =
        ((apiHandler Libc.exact conn).run ⟨ctx', sampleStart.slirp⟩).calls := by
  intro ctx ctx'
  have hsame : ctx.SameButBuf ctx' := ⟨rfl, rfl, rfl⟩
  refine ⟨hsame, ?_, ?_⟩
  · intro h
    simp only [ctx, ctx', apiCtxAlloc, List.map_inj_left, List.mem_range] at h
    exact absurd (h 0 (by decide)) (by decide)
  · intro conn
    exact ((buffer_independent Libc.exact sampleStart.slirp hsame).1 conn).2.2.2.1

end Slirp4netns
