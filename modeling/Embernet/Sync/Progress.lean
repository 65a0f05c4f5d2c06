import Embernet.Lib.Ending
import Embernet.Sync.Convergence
import Mathlib.Data.Prod.Lex
/-!
# Progress — a session ends on both nodes

The node that serves only comes to later points, and takes fewer envelopes
at the last of them; the client leaves when it hears nothing more. So the
two come to make no more steps, and the counts that both keep say that
they never wait for each other.
-/

set_option autoImplicit false

namespace Embernet

open Proc Primitives Duplex

section Points

variable [Primitives]

namespace Responder

omit [Primitives] in
/-- How much of a session is still to come, and at the last point how many
envelopes. -/
def toCome : Await → ℕ ×ₗ ℕ
  | .status _ => toLex (4, 0)
  | .keySync .. => toLex (3, 0)
  | .chunkIds .. => toLex (2, 0)
  | .upload _ _ wanted _ => toLex (1, wanted.card)
  | .done => toLex (0, 0)

omit [Primitives] in
/-- A frame is never passed over, and neither is the end. -/
theorem nextText_arrival {closed : String} {i : Option Frame} {o : Option Decoded}
    (h : nextText closed (arrival i) = .ok o) : ∃ f, o = some f := by
  cases i with
  | none => cases h
  | some f => exact ⟨f.decoded, (Except.ok.inj h).symm⟩

omit [Primitives] in
theorem readKeySync_arrival_ne (i : Option Frame) : readKeySync (arrival i) ≠ .ok none := by
  intro h
  obtain ⟨o, ho, h⟩ := bind_eq_ok.1 h
  obtain ⟨f, rfl⟩ := nextText_arrival ho
  obtain ⟨_, -, h⟩ := bind_eq_ok.1 h
  obtain ⟨_, -, h⟩ := bind_eq_ok.1 h
  cases h

omit [Primitives] in
theorem readChunkBatch_arrival_ne (i : Option Frame) : readChunkBatch (arrival i) ≠ .ok none := by
  intro h
  obtain ⟨o, ho, h⟩ := bind_eq_ok.1 h
  obtain ⟨f, rfl⟩ := nextText_arrival ho
  obtain ⟨_, -, h⟩ := bind_eq_ok.1 h
  obtain ⟨_, -, h⟩ := bind_eq_ok.1 h
  cases h

omit [Primitives] in
theorem readUpload_arrival_ne (i : Option Frame) : readUpload (arrival i) ≠ .ok none := by
  intro h
  obtain ⟨o, ho, h⟩ := bind_eq_ok.1 h
  obtain ⟨f, rfl⟩ := nextText_arrival ho
  obtain ⟨_, -, h⟩ := bind_eq_ok.1 h
  cases h

omit [Primitives] in
theorem later_finishUpload {chan : ChannelRef} {sent received : ℕ} {wanted : Finset String}
    {n : ℕ ×ₗ ℕ} (h : toLex (1, wanted.card) < n) :
    (finishUpload chan sent wanted received).Returns fun w => toCome w < n := by
  unfold finishUpload
  split
  · exact lt_trans (Prod.Lex.toLex_lt_toLex.2 (.inl Nat.zero_lt_one)) h
  · exact h

/-- **The node that serves comes to later points only.** -/
theorem later_resume (w : Await) (i : Option Frame) (ambient : Ambient)
    (hstays : ¬ conduct.leaves w) :
    (conduct.resume w i ambient).Returns fun w' => toCome w' < toCome w := by
  show (resume w (arrival i, ambient)).Returns _
  cases w with
  | status challenge =>
    refine returns_except_bind fun status _ => returns_except_bind fun chan _ => ?_
    refine (speaks_reconcile status ambient.nonces).returns fun w' _ h => ?_
    obtain ⟨⟨policy, identity, rfl⟩, -⟩ := h
    exact Prod.Lex.toLex_lt_toLex.2 (.inl (by decide))
  | keySync chan status policy identity =>
    refine returns_except_bind fun m hread => ?_
    cases m with
    | none => exact absurd hread (readKeySync_arrival_ne i)
    | some m =>
      have hless : toLex (2, 0) < toLex (3, 0) := Prod.Lex.toLex_lt_toLex.2 (.inl (by decide))
      exact .bind fun _ => .bind fun _ => .bind fun _ => .bind fun _ => .bind fun _ => hless
  | chunkIds chan serverChunks differing =>
    refine returns_except_bind fun m hread => ?_
    cases m with
    | none => exact absurd hread (readChunkBatch_arrival_ne i)
    | some batch =>
      refine .bind fun _ => .bind fun _ => .bind fun _ => .bind fun _ => later_finishUpload ?_
      exact Prod.Lex.toLex_lt_toLex.2 (.inl Nat.one_lt_two)
  | upload chan sent wanted received =>
    refine returns_except_bind fun m hread => ?_
    cases m with
    | none => exact absurd hread (readUpload_arrival_ne i)
    | some env =>
      show (acceptUpload chan sent wanted received env).Returns _
      unfold acceptUpload
      rw [bailIf_bind]
      split
      · trivial
      rename_i hwanted
      refine .bind fun _ => .bind fun _ => .bind fun _ => later_finishUpload ?_
      refine Prod.Lex.toLex_lt_toLex.2 (.inr ⟨rfl, ?_⟩)
      exact Finset.card_erase_lt_of_mem (not_not.1 hwanted)
  | done => exact absurd trivial hstays

end Responder

namespace Initiator

/-- **The client leaves when it hears nothing more.** -/
theorem leaves_closed (w : Await) (given : Given) :
    ¬ conduct.leaves w → (conduct.resume w none given).Returns conduct.leaves := by
  intro hstays
  show (resume w (.closed, given)).Returns _
  cases w with
  | challenge chan chunks policyEvents moderationEvents identity authTs =>
    exact returns_except_bind fun challenge hread => by cases hread
  | frames chan identity received => trivial
  | done received => exact absurd trivial hstays

end Initiator

/-! ## Nobody waits for ever -/

variable {channel : String} {d d' : Datadir}
  {steps : List (Option (Dialogue.Speaker × List Frame))}
  {z : Pair Datadir Error Call Frame Initiator.Await Responder.Await}

namespace Responder

/-- **Where the node that serves waits, an answer is still to come**, or the
status packet. -/
theorem answers_of_stands {w : Await} {t : Datadir} {heard said : List Frame}
    (h : stands d' w ⟨t, heard, said⟩) (hstays : ¬ conduct.leaves w) :
    heard.length < repliesTo said := by
  cases w with
  | status challenge =>
    obtain ⟨-, rfl, rfl⟩ := h
    exact Nat.zero_lt_one
  | keySync chan status policy identity =>
    obtain ⟨-, -, -, hopened⟩ := h
    have hbalance := hopened.balance
    simp only at hbalance
    omega
  | chunkIds chan serverChunks differing =>
    obtain ⟨-, -, hopened⟩ := h
    have hbalance := hopened.balance
    simp only at hbalance
    omega
  | upload chan sent wanted received =>
    obtain ⟨-, hwanted, x, huploading⟩ := h
    have hbalance := huploading.balance
    have hcard := Finset.card_pos.2 hwanted
    simp only at hbalance
    omega
  | done => exact absurd trivial hstays

end Responder

namespace Initiator

/-- **Where the client waits, it has answered all it has heard.** -/
theorem answered_of_stands {chan : ChannelRef} {w : Await} {t : Datadir} {heard said : List Frame}
    (h : stands chan d w ⟨t, heard, said⟩) (hstays : ¬ conduct.leaves w) :
    said.length = repliesTo heard := by
  cases w with
  | challenge chan' chunks policyEvents moderationEvents identity authTs =>
    obtain ⟨-, -, rfl, rfl, -⟩ := h
    rfl
  | frames chan' identity received =>
    obtain ⟨-, -, htaken⟩ := h
    exact htaken.answered
  | done received => exact absurd trivial hstays

/-- A client whose channel has no name of one never waits. -/
theorem reliable_unnamed {ts : Int64} {e : Error} (hchan : ChannelRef.parse channel = .error e) :
    Reliable conduct Beside growing (fun _ _ => False) (fun _ _ => False) (start channel ts) d where
  beside _ _ := growing_of_beside
  start := by
    unfold start
    rw [hchan]
    exact .fail
  resume _ _ _ _ _ _ h := h.elim

end Initiator

/-- **The two never wait for each other.** -/
theorem Conversing.not_waits (hrun : Conversing channel d d' steps z) :
    ¬ (z.1.Waits Initiator.conduct ∧ z.2.Waits Responder.conduct) := by
  rintro ⟨⟨w, hw, hstays, hinbox⟩, w', hw', hstays', hinbox'⟩
  rcases hchan : ChannelRef.parse channel with e | chan
  · obtain ⟨ts, identity, random, now, hrun⟩ := hrun
    obtain ⟨_, _, hclient, -⟩ :=
      talks_of_run (Initiator.reliable_unnamed hchan) Responder.reliable hrun
    exact hclient.stands w hw
  · obtain ⟨heard, heard', hclient, hserver, hsaid, hsaid'⟩ := hrun.talks hchan
    rw [hinbox', List.append_nil] at hsaid
    rw [hinbox, List.append_nil] at hsaid'
    have hanswered := Initiator.answered_of_stands (hclient.stands w hw) hstays
    have hanswers := Responder.answers_of_stands (hserver.stands w' hw') hstays'
    rw [hsaid, hanswered, hsaid'] at hanswers
    exact absurd hanswers (Nat.lt_irrefl _)

instance : Nonempty Given := ⟨⟨0, 0, .ok none, fun _ => []⟩⟩

instance : Nonempty Ambient := ⟨⟨0, 0, fun _ => [], sortedOrder, sortedOrder⟩⟩

/-- **Every session ends**, on both nodes, whatever other operations run on
them: it has no deadlock, and there is no end of steps that it could make. -/
theorem session_ends {ts : Int64} {identity : KeypairFile} {random : Bytes} {now : Int64}
    (r : Forever Initiator.conduct Responder.conduct Beside Beside)
    (hstart : r.state 0 =
      Duplex.start (Initiator.start channel ts) (Responder.start identity random now) d d')
    (hfair : r.Fair) :
    ∃ N, ∀ n, N ≤ n →
      (r.state n).1.Gone Initiator.conduct ∧ (r.state n).2.Gone Responder.conduct := by
  have hclient := wellFounded_after Initiator.leaves_closed
  have hserver := wellFounded_follows (InvImage.wf Responder.toCome wellFounded_lt)
    Responder.later_resume
  refine r.eventually_gone hclient hserver hfair fun n => ?_
  have hrun := r.run n
  rw [hstart] at hrun
  exact Conversing.not_waits ⟨ts, identity, random, now, hrun⟩

end Points

/-! ## A session that ends -/

section Fetching

open Simulated

attribute [local instance] simulated

/-- An operation that is refused writes nothing. -/
theorem beside_refl (d : Datadir) : Beside d d := by
  refine ⟨(general, .appendMessage { greeting with channel := "" }), ?_⟩
  show d = ((ignore (appendMessage general { greeting with channel := "" })).exec d).2
  have hwrong : "" ≠ general.fullName := by decide
  rw [exec_ignore, appendMessage, Op.exec_bailIf_bind, if_pos hwrong]

/-- The session that fetches the greeting, and then nothing for ever. -/
theorem session_ends_fetched : ∃ ts identity random now,
    ∃ r : Forever Initiator.conduct Responder.conduct Beside Beside,
      r.state 0 = Duplex.start (Initiator.start general.fullName ts)
        (Responder.start identity random now) (historyNode [] []) servingNode ∧
      r.Fair ∧ ∃ N, (r.state N).1.task = .ret (.done 1) ∧ ∀ n, N ≤ n →
        (r.state n).1.Gone Initiator.conduct ∧ (r.state n).2.Gone Responder.conduct := by
  obtain ⟨steps, z, ⟨ts, identity, random, now, hrun⟩, hdone, hdone', -⟩ :=
    exists_conversing_fetched
  obtain ⟨r, hstart, N, hlast⟩ := exists_forever hrun (beside_refl z.1.state)
  have hclient : z.1.Gone Initiator.conduct := by
    unfold Side.Gone
    rw [hdone]
    trivial
  have hserver : z.2.Gone Responder.conduct := by
    unfold Side.Gone
    rw [hdone']
    trivial
  have hfair : r.Fair := by
    intro n
    refine ⟨max n N, le_max_left n N, .inr ?_⟩
    rw [hlast _ (le_max_right n N)]
    rintro (⟨ms, x', hmoves⟩ | ⟨ms, y', hmoves⟩)
    · exact hclient.not_moves hmoves
    · exact hserver.not_moves hmoves
  obtain ⟨M, hM⟩ := session_ends r hstart hfair
  refine ⟨ts, identity, random, now, r, hstart, hfair, max M N, ?_, fun n hn => ?_⟩
  · rw [hlast _ (le_max_right M N), hdone]
  · exact hM n ((le_max_left M N).trans hn)

end Fetching

end Embernet
