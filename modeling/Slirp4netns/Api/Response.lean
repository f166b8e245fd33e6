/-
  slirp4netns formalization — what a client reads in a response.

  Every response is the text of a JSON value (`Reply.value`): the literals of
  the source, the text that `snprintf` makes of an id and what parson serializes
  are all read back by a parser as that value (`jsonParseString_text`).  So a
  client can tell the replies apart (`Reply.value_error`), and the responses can
  be compared with the grammar of the manual (`Conforms`).
-/
import Slirp4netns.Api.Registry

namespace Slirp4netns

/-! ## The value of a reply -/

/-- The value of a reply. -/
def Reply.value : Reply → JsonValue
  | error e => .object [(bytes "error", .object [(bytes "desc",
      .string (bytes "bad request: " ++ bytes e.desc))])]
  | added fwd => .object [(bytes "return", .object [(bytes "id", .number fwd.id)])]
  | listed fwds => listValue fwds
  | removed _ => .object [(bytes "return", .object [])]

/-- The forwards in the text of a reply are well-formed. -/
def Reply.Wf : Reply → Prop
  | error _ => True
  | added fwd => HostfwdWf fwd
  | listed fwds => ∀ fwd ∈ fwds, HostfwdWf fwd
  | removed _ => True

/-- A string without quotes, slashes and control characters is written as it is. -/
theorem jsonSerializeString_literal {s : Bytes} (h : ∀ c ∈ s, escapeByte c = [c]) :
    jsonSerializeString s = 34 :: s ++ [34] := by
  have : s.flatMap escapeByte = s := by
    induction s with
    | nil => rfl
    | cons c s ih =>
      rw [List.flatMap_cons, h c (by simp), ih fun d hd => h d (List.mem_cons_of_mem c hd)]
      rfl
  rw [jsonSerializeString, this]

theorem jsonSerializeToString_error (C : Libc) (e : ApiError) :
    jsonSerializeToString C (Reply.error e).value = errorText e.desc := by
  have hall : ∀ s : Bytes, s.all (fun c => escapeByte c == [c]) = true →
      ∀ c ∈ s, escapeByte c = [c] := fun s h => by simpa using h
  have hbad : ∀ c ∈ bytes "bad request: ", escapeByte c = [c] := hall _ (by decide)
  have hdesc : ∀ c ∈ bytes e.desc, escapeByte c = [c] := by
    refine hall _ ?_
    rcases e with e | e | e <;> cases e <;> decide
  have hplain : ∀ c ∈ bytes "bad request: " ++ bytes e.desc, escapeByte c = [c] := fun c hc =>
    (List.mem_append.1 hc).elim (hbad c) (hdesc c)
  have hhead : bytes "\x7b\"error\":\x7b\"desc\":\"bad request: " =
      123 :: (jsonSerializeString (bytes "error") ++ 58 :: 123 ::
        (jsonSerializeString (bytes "desc") ++ 58 :: 34 :: bytes "bad request: ")) := by
    decide
  have htail : bytes "\"\x7d\x7d" = [34, 125, 125] := by decide
  simp only [jsonSerializeToString, Reply.value, jsonSerializeToBufferR, serializeMembers,
    jsonSerializeString_literal hplain]
  rw [errorText, hhead, htail]
  simp

theorem jsonSerializeToString_added (C : Libc) {fwd : ApiHostfwd} (h : IsInt fwd.id) :
    jsonSerializeToString C (Reply.added fwd).value = idText fwd.id := by
  have hhead : bytes "\x7b\"return\":\x7b\"id\":" =
      123 :: (jsonSerializeString (bytes "return") ++ 58 :: 123 ::
        (jsonSerializeString (bytes "id") ++ [58])) := by decide
  have htail : bytes "\x7d\x7d" = [125, 125] := by decide
  simp only [jsonSerializeToString, Reply.value, jsonSerializeToBufferR, serializeMembers,
    C.sprintfG17_int fwd.id h.natAbs_le]
  rw [idText, hhead, htail]
  simp

/-! ## Reading a response -/

/-- An object with distinct names, none of which has a NUL. -/
theorem JsonValue.plain_object {levels : ℕ} {o : JsonObject} (names : List Bytes)
    (hnames : o.map Prod.fst = names) (hnodup : names.Nodup) (hnul : ∀ k ∈ names, (0 : UInt8) ∉ k)
    (h : ∀ m ∈ o, m.2.Plain levels) : (JsonValue.object o).Plain (levels + 1) :=
  ⟨hnames ▸ hnodup, fun m hm => ⟨hnul _ (hnames ▸ List.mem_map_of_mem hm), h m hm⟩⟩

theorem IsInt.plain {n : ℤ} (h : IsInt n) (levels : ℕ) :
    (JsonValue.number n).Plain (levels + 1) := .inr ⟨n, rfl, h.natAbs_le⟩

theorem entryValue_plain {fwd : ApiHostfwd} (h : HostfwdWf fwd) (levels : ℕ) :
    (entryValue fwd).Plain (levels + 2) := by
  refine JsonValue.plain_object [bytes "id", bytes "proto", bytes "host_addr",
    bytes "host_port", bytes "guest_addr", bytes "guest_port"] rfl (by decide) (by decide)
    fun m hm => ?_
  simp only [List.mem_cons, List.not_mem_nil, or_false] at hm
  rcases hm with rfl | rfl | rfl | rfl | rfl | rfl
  exacts [h.id_isInt.plain _, trivial, trivial, h.hostPort_isInt.plain _, trivial,
    h.guestPort_isInt.plain _]

theorem Reply.value_plain {reply : Reply} (h : reply.Wf) (levels : ℕ) :
    reply.value.Plain (levels + 4) := by
  have hone : ∀ {n : ℕ} {k : Bytes} {v : JsonValue}, (0 : UInt8) ∉ k → v.Plain n →
      (JsonValue.object [(k, v)]).Plain (n + 1) := fun hk hv =>
    ⟨by simp, by simpa using ⟨hk, hv⟩⟩
  cases reply with
  | error e => exact hone (by decide) (hone (by decide) trivial)
  | added fwd => exact hone (by decide) (hone (by decide) (h.id_isInt.plain _))
  | listed fwds =>
    refine hone (by decide) fun v hv => ?_
    obtain ⟨fwd, hfwd, rfl⟩ := List.mem_map.1 hv
    exact entryValue_plain (h fwd hfwd) levels
  | removed fwd => exact hone (by decide) ⟨by simp, by simp⟩

/-- Every response is the text of its value. -/
theorem Reply.text_eq (C : Libc) {reply : Reply} (h : reply.Wf) :
    reply.text C = jsonSerializeToString C reply.value := by
  cases reply with
  | error e => exact (jsonSerializeToString_error C e).symm
  | added fwd => exact (jsonSerializeToString_added C h.id_isInt).symm
  | listed fwds =>
    exact cstr_eq_self (serialize_not_nul C (Reply.value_plain h 0))
  | removed fwd =>
    simp only [Reply.text, Reply.value, jsonSerializeToString, jsonSerializeToBufferR,
      serializeMembers]
    decide

/-- **A client reads a response as the value of the reply.** -/
theorem jsonParseString_text (C : Libc) {reply : Reply} (h : reply.Wf) :
    jsonParseString C (reply.text C) = some reply.value := by
  rw [Reply.text_eq C h]
  exact jsonParseString_serialize C (Reply.value_plain h 2045)

/-- Replies with the same text have the same value. -/
theorem Reply.value_eq_of_text {C : Libc} {reply reply' : Reply} (h : reply.Wf) (h' : reply'.Wf)
    (ht : reply.text C = reply'.text C) : reply.value = reply'.value := by
  have h₁ := jsonParseString_text C h
  rw [ht, jsonParseString_text C h'] at h₁
  exact (Option.some.inj h₁).symm

theorem ApiError.desc_injective {e e' : ApiError} (h : e.desc = e'.desc) : e = e' := by
  revert h
  rcases e with e | e | e <;> rcases e' with e' | e' | e' <;> cases e <;> cases e' <;> decide

/-- The text of an error is the text of no other reply. -/
theorem Reply.eq_error_of_text {C : Libc} {reply : Reply} {e : ApiError} (h : reply.Wf)
    (ht : reply.text C = errorText e.desc) : reply = .error e := by
  have hv : reply.value = (Reply.error e).value := Reply.value_eq_of_text h trivial ht
  have hne : bytes "return" ≠ bytes "error" ∧ bytes "entries" ≠ bytes "error" := by decide
  cases reply with
  | error e' =>
    have hd : bytes e'.desc = bytes e.desc := by simpa [Reply.value] using hv
    rw [ApiError.desc_injective (bytes_injective hd)]
  | added fwd => simp [Reply.value, hne.1] at hv
  | listed fwds => simp [Reply.value, listValue, hne.2] at hv
  | removed fwd => simp [Reply.value, hne.1] at hv

/-- The forwards that a request answers with are well-formed if those of the registry are. -/
theorem Serves.reply_wf {L : Libslirp} {C : Libc} {cfg : Slirp4netnsConfig} {r r' : Registry L}
    {req : Request} {reply : Reply} (h : Serves C cfg r r' req reply)
    (hw : ∀ fwd ∈ r.hostfwds, HostfwdWf fwd) : reply.Wf := by
  cases h with
  | error => exact trivial
  | added hc => exact HostfwdWf.of_accept hc r.nextid_isInt
  | listed => exact hw
  | removed => exact trivial

/-- **A message that is handled gets one response**, which a client reads as the value of the
    service's reply. -/
theorem ApiStep.response {L : Libslirp} {C : Libc} {start : ApiStart L} {hs : List Handled}
    {s s' : ApiState L} (hrun : ApiRun C start hs s) {h : Handled} (hstep : ApiStep C s h s')
    {data : Bytes} (hm : h.conn.message = some data) :
    ∃ calls reply, serve C s.ctx.cfg (requestOf C data) s.registry =
        ⟨calls, s'.registry, .ret reply⟩ ∧
      reply.Wf ∧ responses h.calls = [reply.text C] ∧
      jsonParseString C (reply.text C) = some reply.value := by
  rcases hstep.cases.2 with ⟨hn, -, -⟩ | ⟨data', calls, reply, hm', hserve, hresp⟩
  · rw [hn] at hm; simp at hm
  · obtain rfl : data' = data := Option.some.inj (hm'.symm.trans hm)
    have hwf : reply.Wf := (serve_serves hserve).reply_wf hrun.wf
    exact ⟨calls, reply, hserve, hwf, hresp, jsonParseString_text C hwf⟩

/-! ## The grammar of responses -/

/-- The responses that the manual describes: an error with a description, or what the operation
    returns. -/
inductive Conforms : Request → JsonValue → Prop
  | error {req o desc} : o.lookup (bytes "desc") = some (.string desc) →
      Conforms req (.object [(bytes "error", .object o)])
  | added {jo n} : Conforms (.add jo) (.object [(bytes "return",
      .object [(bytes "id", .number n)])])
  | listed {entries} : Conforms .list (.object [(bytes "return",
      .object [(bytes "entries", .array entries)])])
  | removed {jo} : Conforms (.remove jo) (.object [(bytes "return", .object [])])

/-- The value of `list_hostfwd` has neither of the two members. -/
theorem not_conforms_listValue (req : Request) (fwds : List ApiHostfwd) :
    ¬ Conforms req (listValue fwds) := by
  have hne : bytes "entries" ≠ bytes "error" ∧ bytes "entries" ≠ bytes "return" := by decide
  generalize hv : listValue fwds = v
  intro h
  cases h with
  | error => simp [listValue, hne.1] at hv
  | added => simp [listValue, hne.2] at hv
  | listed => simp [listValue, hne.2] at hv
  | removed => simp [listValue, hne.2] at hv

end Slirp4netns
