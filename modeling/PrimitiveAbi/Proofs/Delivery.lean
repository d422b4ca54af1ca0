import Mathlib.Algebra.GroupWithZero.Nat
import Mathlib.Tactic.ByContra
import PrimitiveAbi.Output

/-!
# What reaches an unreliable device

A buffer is offered by writes, each of the bytes that no earlier one accepted, until all of it is
accepted or a write gives it up (`Output.Offered`). The writes of all requests together take the
answers of the script in order, and each request ends in one flush, whatever flushes come to. So the
bytes of a request are lost only behind a write that gave their buffer up, and none are repeated
(`Output.requests_served`).
-/

namespace PrimitiveAbi.Output

/-! ### Writes -/

namespace Action

/-- How many bytes a call accepts. -/
def accepted : Action → Nat
  | .write _ (.accepted count) => count
  | _ => 0

/-- Whether a call gives its buffer up: it fails, or it accepts nothing. -/
def givesUp : Action → Bool
  | .write _ .failed => true
  | .write _ (.accepted count) => count = 0
  | _ => false

end Action

/-- How many bytes some calls accept. -/
def accepted (actions : List Action) : Nat := (actions.map Action.accepted).sum

theorem accepted_cons (a : Action) (actions : List Action) :
    accepted (a :: actions) = a.accepted + accepted actions := by
  rw [accepted, List.map_cons, List.sum_cons]
  rfl

/-- The writes that offer a buffer, and what was accepted of it. -/
structure Offered (buffer : List UInt8) (writes : List Action) (sent : List UInt8) : Prop where
  /-- A write offers exactly the bytes that the writes before it left. -/
  offers : ∀ before a behind, writes = before ++ a :: behind →
    accepted before < buffer.length ∧
      ∃ reply, a = .write (buffer.drop (accepted before)) reply
  /-- What is accepted stands at the front. -/
  front : sent = buffer.take (accepted writes)
  /-- No write follows one that gives the buffer up. -/
  final : ∀ before a behind, writes = before ++ a :: behind → a.givesUp = true → behind = []
  /-- Bytes are left only where the buffer was given up. -/
  short : sent ≠ buffer → ∃ a ∈ writes, a.givesUp = true

namespace Offered

theorem nil : Offered [] [] [] where
  offers before a behind h := by simp at h
  front := rfl
  final before a behind h := by simp at h
  short h := absurd rfl h

theorem eq_of_singleton_eq {a b : Action} {before behind : List Action}
    (h : [b] = before ++ a :: behind) : before = [] ∧ a = b ∧ behind = [] := by
  simpa [List.singleton_eq_append_iff] using h

/-- One write that gives the buffer up. -/
theorem givenUp {buffer : List UInt8} {reply : Reply} (hne : buffer ≠ [])
    (hreply : (Action.write buffer reply).givesUp = true)
    (hnone : (Action.write buffer reply).accepted = 0) :
    Offered buffer [.write buffer reply] [] where
  offers before a behind h := by
    obtain ⟨rfl, rfl, rfl⟩ := eq_of_singleton_eq h
    exact ⟨List.length_pos_iff.2 hne, reply, rfl⟩
  front := by simp [Output.accepted, hnone]
  final before a behind h _ := by
    obtain ⟨-, -, rfl⟩ := eq_of_singleton_eq h
    rfl
  short _ := ⟨_, List.mem_singleton_self _, hreply⟩

/-- A write that does not give the buffer up, and the writes of what it leaves. -/
theorem cons {buffer sent : List UInt8} {writes : List Action} {reply : Reply} {count : Nat}
    (hne : buffer ≠ []) (hreply : (Action.write buffer reply).givesUp = false)
    (hcount : (Action.write buffer reply).accepted = count)
    (h : Offered (buffer.drop count) writes sent) :
    Offered buffer (.write buffer reply :: writes) (buffer.take count ++ sent) where
  offers before a behind hsplit := by
    rcases List.cons_eq_append_iff.1 hsplit with ⟨rfl, heq⟩ | ⟨before, rfl, hrest⟩
    · obtain ⟨rfl, -⟩ := List.cons.inj heq
      exact ⟨List.length_pos_iff.2 hne, reply, rfl⟩
    · obtain ⟨hlt, reply', rfl⟩ := h.offers before a behind hrest
      rw [accepted_cons, hcount, ← List.drop_drop]
      rw [List.length_drop] at hlt
      exact ⟨by omega, reply', rfl⟩
  front := by
    rw [h.front, accepted_cons, hcount, List.take_add]
  final before a behind hsplit hup := by
    rcases List.cons_eq_append_iff.1 hsplit with ⟨rfl, heq⟩ | ⟨before, rfl, hrest⟩
    · obtain ⟨rfl, -⟩ := List.cons.inj heq
      rw [hreply] at hup
      exact absurd hup (by decide)
    · exact h.final before a behind hrest hup
  short hshort := by
    have hrest : sent ≠ buffer.drop count := by
      rintro rfl
      exact hshort (List.take_append_drop count buffer)
    obtain ⟨a, ha, hup⟩ := h.short hrest
    exact ⟨a, List.mem_cons_of_mem _ ha, hup⟩

/-- Where no write gives the buffer up, all of it is accepted. -/
theorem sent_eq {buffer sent : List UInt8} {writes : List Action} (h : Offered buffer writes sent)
    (hup : ∀ a ∈ writes, a.givesUp = false) : sent = buffer := by
  by_contra hshort
  obtain ⟨a, ha, hgiven⟩ := h.short hshort
  rw [hup a ha] at hgiven
  exact absurd hgiven (by decide)

/-- A buffer that is not empty is offered at least once. -/
theorem writes_ne_nil {buffer sent : List UInt8} {writes : List Action}
    (h : Offered buffer writes sent) (hne : buffer ≠ []) : writes ≠ [] := by
  rintro rfl
  obtain ⟨a, ha, -⟩ := h.short (by rw [h.front]; exact hne.symm)
  exact absurd ha List.not_mem_nil

end Offered

theorem offered_writeAll (script : List Answer) (buffer : List UInt8) :
    Offered buffer (writeAll script buffer).actions (writeAll script buffer).sent := by
  fun_induction writeAll script buffer with
  | case1 script => exact .nil
  | case2 buffer hne =>
    have hall : Offered (buffer.drop buffer.length) [] [] := by
      rw [List.drop_length]
      exact .nil
    have hlength : buffer.length ≠ 0 := by simpa using hne
    have hone : Offered buffer [.write buffer (.accepted buffer.length)]
        (buffer.take buffer.length ++ []) :=
      .cons (by simpa using hne) (by simpa [Action.givesUp] using hlength) rfl hall
    rwa [List.take_length, List.append_nil] at hone
  | case3 script buffer hne => exact .givenUp (by simpa using hne) rfl rfl
  | case4 script buffer hne ih =>
    exact .cons (by simpa using hne) rfl rfl ih
  | case5 limit script buffer hne count hzero => exact .givenUp (by simpa using hne) rfl rfl
  | case6 limit script buffer hne count hpos ih =>
    exact .cons (by simpa using hne) (by simpa [Action.givesUp] using hpos) rfl ih

/-! ### Answers -/

/-- The reply to a write. -/
def Answer.reply : Answer → List UInt8 → Reply
  | .accepts limit, offered => .accepted (min limit offered.length)
  | .fails, _ => .failed
  | .interrupted, _ => .interrupted

/-- The writes with these offers, answered by a script in order and accepted behind it. -/
def answered : List Answer → List (List UInt8) → List Action
  | _, [] => []
  | [], offer :: offers => .write offer (.accepted offer.length) :: answered [] offers
  | a :: script, offer :: offers => .write offer (a.reply offer) :: answered script offers

theorem answered_append (script : List Answer) (offers offers' : List (List UInt8)) :
    answered script (offers ++ offers') =
      answered script offers ++ answered (script.drop offers.length) offers' := by
  fun_induction answered script offers with
  | case1 => rfl
  | case2 offer offers ih =>
    rw [List.cons_append, answered, ih, List.drop_nil, List.drop_nil, List.cons_append]
  | case3 a script offer offers ih =>
    rw [List.cons_append, answered, ih, List.length_cons, List.drop_succ_cons, List.cons_append]

/-- A transfer takes its answers off the front of a script. -/
def Transfer.Takes (t : Transfer) (script : List Answer) : Prop :=
  ∃ offers, t.actions = answered script offers ∧ t.script = script.drop offers.length

theorem Transfer.Takes.after {t : Transfer} {script : List Answer} (h : t.Takes script) (a : Answer)
    (buffer sent : List UInt8) : (t.after buffer (a.reply buffer) sent).Takes (a :: script) := by
  obtain ⟨offers, hactions, hscript⟩ := h
  exact ⟨buffer :: offers, congrArg _ hactions, hscript⟩

theorem takes_writeAll (script : List Answer) (buffer : List UInt8) :
    (writeAll script buffer).Takes script := by
  fun_induction writeAll script buffer with
  | case1 script => exact ⟨[], rfl, rfl⟩
  | case2 buffer hne => exact ⟨[buffer], rfl, rfl⟩
  | case3 script buffer hne => exact ⟨[buffer], rfl, rfl⟩
  | case4 script buffer hne ih => exact ih.after .interrupted buffer []
  | case5 limit script buffer hne count hzero =>
    exact ⟨[buffer], congrArg (fun n => [Action.write _ (.accepted n)]) hzero.symm, rfl⟩
  | case6 limit script buffer hne count hpos ih => exact ih.after (.accepts limit) buffer _

/-! ### Requests -/

/-- What a request comes to: its buffers are offered one after the other, whatever came of the one
before, and then there is one flush. -/
def Request.Served (flushed : Bool) : Request → List Action → List UInt8 → Prop
  | .text bytes, actions, sent =>
      ∃ writes, Offered bytes writes sent ∧ actions = writes ++ [.flush flushed]
  | .line bytes, actions, sent =>
      ∃ writes sent₁ writes' sent₂, Offered bytes writes sent₁ ∧ Offered lineFeed writes' sent₂ ∧
        writes' ≠ [] ∧ actions = writes ++ writes' ++ [.flush flushed] ∧ sent = sent₁ ++ sent₂
  | .newline, actions, sent =>
      ∃ writes, Offered lineFeed writes sent ∧ actions = writes ++ [.flush flushed]

theorem writeEach_singleton (script : List Answer) (buffer : List UInt8) :
    writeEach script [buffer] = writeAll script buffer := by
  simp [writeEach]

theorem served_serve (d : Device) (r : Request) :
    r.Served (d.flushed 0) (d.serve r).1.actions (d.serve r).1.sent := by
  cases r with
  | text bytes =>
    rw [Device.serve, Request.buffers, writeEach_singleton]
    exact ⟨_, offered_writeAll d.script bytes, rfl⟩
  | line bytes =>
    rw [Device.serve, Request.buffers, writeEach, writeEach_singleton]
    have hfeed := offered_writeAll (writeAll d.script bytes).script lineFeed
    exact ⟨_, _, _, _, offered_writeAll d.script bytes, hfeed, hfeed.writes_ne_nil (by decide), rfl,
      rfl⟩
  | newline =>
    rw [Device.serve, Request.buffers, writeEach_singleton]
    exact ⟨_, offered_writeAll d.script lineFeed, rfl⟩

/-- Where no write gives its buffer up, a request puts out all of its bytes. -/
theorem Request.Served.sent_eq {flushed : Bool} {r : Request} {actions : List Action}
    {sent : List UInt8} (h : r.Served flushed actions sent)
    (hup : ∀ a ∈ actions, a.givesUp = false) : sent = r.bytes := by
  cases r with
  | text bytes =>
    obtain ⟨writes, hoffered, rfl⟩ := h
    rw [hoffered.sent_eq fun a ha => hup a (by simp [ha])]
    simp [Request.bytes, Request.buffers]
  | line bytes =>
    obtain ⟨writes, sent₁, writes', sent₂, hoffered, hfeed, -, rfl, rfl⟩ := h
    rw [hoffered.sent_eq fun a ha => hup a (by simp [ha]),
      hfeed.sent_eq fun a ha => hup a (by simp [ha])]
    simp [Request.bytes, Request.buffers]
  | newline =>
    obtain ⟨writes, hoffered, rfl⟩ := h
    rw [hoffered.sent_eq fun a ha => hup a (by simp [ha])]
    simp [Request.bytes, Request.buffers]

/-- The requests are served one after the other, and each takes the next flush; a request comes with
its calls and with all the bytes accepted so far. -/
inductive ServedInTurn : (Nat → Bool) → List UInt8 → List Request →
    List (List Action × List UInt8) → Prop
  | nil {flushed : Nat → Bool} {before : List UInt8} : ServedInTurn flushed before [] []
  | cons {flushed : Nat → Bool} {before sent : List UInt8} {r : Request} {rs : List Request}
      {actions : List Action} {calls : List (List Action × List UInt8)} :
      r.Served (flushed 0) actions sent →
      ServedInTurn (fun n => flushed (n + 1)) (before ++ sent) rs calls →
      ServedInTurn flushed before (r :: rs) ((actions, before ++ sent) :: calls)

theorem flushed_serve (d : Device) (r : Request) :
    (d.serve r).2.flushed = fun n => d.flushed (n + 1) := by
  funext n
  obtain ⟨script, flushes, flushFails⟩ := d
  cases flushes <;> rfl

theorem servedInTurn_serveAll (d : Device) (before : List UInt8) (rs : List Request) :
    ServedInTurn d.flushed before rs (d.serveAll before rs) := by
  induction rs generalizing d before with
  | nil => exact .nil
  | cons r rs ih =>
    have hrest := ih (d.serve r).2 (before ++ (d.serve r).1.sent)
    rw [flushed_serve] at hrest
    exact .cons (served_serve d r) hrest

theorem ServedInTurn.data_eq {flushed : Nat → Bool} {before : List UInt8} {rs : List Request}
    {calls : List (List Action × List UInt8)} (h : ServedInTurn flushed before rs calls)
    (hup : ∀ call ∈ calls, ∀ a ∈ call.1, a.givesUp = false) {k : Nat}
    {call : List Action × List UInt8} (hk : calls[k]? = some call) :
    call.2 = before ++ ((rs.take (k + 1)).map Request.bytes).flatten := by
  induction h generalizing k with
  | nil => simp at hk
  | cons hserved _ ih =>
    obtain ⟨hfirst, hothers⟩ := List.forall_mem_cons.1 hup
    obtain rfl := hserved.sent_eq hfirst
    cases k with
    | zero =>
      obtain rfl := Option.some.inj hk
      simp
    | succ k =>
      rw [ih hothers hk, List.take_succ_cons, List.map_cons, List.flatten_cons, List.append_assoc]

/-! ### The answers to all requests -/

/-- Whether a call is a write. -/
def Action.isWrite : Action → Bool
  | .write _ _ => true
  | .flush _ => false

theorem filter_isWrite_answered (script : List Answer) (offers : List (List UInt8)) :
    (answered script offers).filter Action.isWrite = answered script offers := by
  rw [List.filter_eq_self]
  intro a ha
  fun_induction answered script offers with
  | case1 => simp at ha
  | case2 offer offers ih =>
    rcases List.mem_cons.1 ha with rfl | ha
    · rfl
    · exact ih ha
  | case3 a script offer offers ih =>
    rcases List.mem_cons.1 ha with rfl | ha
    · rfl
    · exact ih ha

theorem takes_writeEach (script : List Answer) (buffers : List (List UInt8)) :
    (writeEach script buffers).Takes script := by
  induction buffers generalizing script with
  | nil => exact ⟨[], rfl, rfl⟩
  | cons buffer buffers ih =>
    obtain ⟨offers, hactions, hscript⟩ := takes_writeAll script buffer
    obtain ⟨offers', hactions', hscript'⟩ := ih (writeAll script buffer).script
    refine ⟨offers ++ offers', ?_, ?_⟩
    · rw [answered_append, ← hscript, writeEach, hactions, hactions']
    · rw [writeEach, hscript', hscript, List.drop_drop, List.length_append]

/-- The writes of all requests take the answers of the script in order. -/
theorem writes_serveAll (d : Device) (before : List UInt8) (rs : List Request) :
    ∃ offers, ((d.serveAll before rs).flatMap Prod.fst).filter Action.isWrite =
      answered d.script offers := by
  induction rs generalizing d before with
  | nil => exact ⟨[], by cases d.script <;> rfl⟩
  | cons r rs ih =>
    obtain ⟨offers, hactions, hscript⟩ := takes_writeEach d.script r.buffers
    obtain ⟨offers', hothers⟩ := ih (d.serve r).2 (before ++ (d.serve r).1.sent)
    have hwrites : (d.serve r).1.actions.filter Action.isWrite = answered d.script offers := by
      rw [Device.serve, List.filter_append, hactions, filter_isWrite_answered]
      exact List.append_nil _
    refine ⟨offers ++ offers', ?_⟩
    rw [answered_append, ← hscript, Device.serveAll, List.flatMap_cons, List.filter_append, hwrites]
    exact congrArg _ hothers

/-- Requests on a device with any answers to writes and flushes. Each makes the writes of its
buffers and then the next flush; a buffer is offered by the bytes that are left of it, and given up
only behind a write that fails or accepts nothing. The writes are answered by the script in order.
Where none gives its buffer up, the device holds all the bytes of the requests so far. -/
theorem requests_served (d : Device) (requests : List Request) :
    ServedInTurn d.flushed [] requests (d.serveAll [] requests) ∧
    (∃ offers, ((d.serveAll [] requests).flatMap Prod.fst).filter Action.isWrite =
      answered d.script offers) ∧
    ((∀ call ∈ d.serveAll [] requests, ∀ a ∈ call.1, a.givesUp = false) →
      ∀ (k : Nat) (call : List Action × List UInt8), (d.serveAll [] requests)[k]? = some call →
        call.2 = ((requests.take (k + 1)).map Request.bytes).flatten) := by
  have hturn := servedInTurn_serveAll d [] requests
  refine ⟨hturn, writes_serveAll d [] requests, ?_⟩
  intro hup k call hk
  simpa using hturn.data_eq hup hk

/-- A short write, an interruption and a flush that fails lose nothing. -/
theorem requests_served_interrupted :
    let d : Device := { script := [.accepts 2, .interrupted], flushes := [true, false] }
    (d.serveAll [] [.line [104, 105, 33], .newline])[1]? =
      some ([.write [10] (.accepted 1), .flush false], [104, 105, 33, 10, 10]) ∧
    ([104, 105, 33, 10, 10] : List UInt8) =
      (([.line [104, 105, 33], .newline] : List Request).map Request.bytes).flatten := by
  intro d
  have hk : (d.serveAll [] [.line [104, 105, 33], .newline])[1]? =
      some ([.write [10] (.accepted 1), .flush false], [104, 105, 33, 10, 10]) := by decide
  exact ⟨hk, (requests_served d _).2.2 (by decide) 1 _ hk⟩

end PrimitiveAbi.Output
