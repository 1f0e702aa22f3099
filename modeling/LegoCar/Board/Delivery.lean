import Mathlib
import LegoCar.Wire.HostStream
import LegoCar.Board.Receive

/-!
# Delivery while the link is up

The host sends bytes that are not `'S'` and then frames, the link stays up and nothing is lost in
the receive FIFO. The writes of a reply take received bytes out of the FIFO
(`altUpRs232WriteData`), so the frames are all accepted, in order and once each, exactly when no
reply is disturbed (`delivery_iff`): whenever the FIFO starts with an `'S'`, it holds that one
frame, and nothing else arrives until the reply is written.

`Progress` follows the bytes taken out of the FIFO: those dropped, those of accepted frames and
those discarded by replies. Discarded bytes are never made up for, since all bytes before the
first frame have been dropped by the time a reply can discard one.
-/

namespace LegoCar

open Driven Board Uart

/-! ### Replies -/

section Said

attribute [local irreducible] Uart.readMany Uart.writeMany Uart.writeString

theorem said_iowrData (b : UInt8) (u : Uart) : (u.iowrData b).said = u.said ++ [b] := by
  unfold iowrData
  split <;> rfl

theorem said_readMany (k : ℕ) (sl : ℕ → Slot) (u : Uart) : (u.readMany k sl).2.said = u.said := by
  induction k generalizing sl u with
  | zero => simp only [readMany]
  | succ k ih =>
    rw [readMany_succ]
    exact ih _ _

theorem said_writeMany (bs : List UInt8) (sl : ℕ → Slot) (u : Uart) :
    (u.writeMany bs sl).said = u.said ++ bs := by
  induction bs generalizing sl u with
  | nil => simp [writeMany]
  | cons b bs ih =>
    have hfirst : (u.altUpRs232WriteData (sl 0) b).said = u.said ++ [b] := said_iowrData b _
    simp only [writeMany]
    rw [ih, hfirst, List.append_assoc, List.singleton_append]

theorem exchange_said (inp : UartInput) (i : ℕ) (b : Board) :
    (b.exchange inp i).1.uart.said = b.uart.said ++ (b.exchange inp i).2.2.getD [] := by
  have hread : (b.countTimeout.readStart inp).uart.said = b.countTimeout.uart.said := rfl
  have hcases := exchange_cases inp i b
  generalize b.exchange inp i = r at hcases ⊢
  cases hcases with
  | waiting => rw [uart_countTimeout, Option.getD_none, List.append_nil]
  | dropped => rw [hread, uart_countTimeout, Option.getD_none, List.append_nil]
  | answered =>
    rw [uart_receive_send, said_writeMany, said_readMany, uart_countTimeout, Option.getD_some]

/-- A reply is an `'R'` and the board's record, and answers a record of the host. -/
theorem exchange_reply (inp : UartInput) (i : ℕ) (b : Board) :
    (b.exchange inp i).2.2.isSome = (b.exchange inp i).2.1.isSome ∧
      ∀ r ∈ (b.exchange inp i).2.2, ∃ o : Outdata, r = tagR :: o.serial := by
  have hcases := exchange_cases inp i b
  generalize b.exchange inp i = r at hcases ⊢
  cases hcases with
  | waiting => exact ⟨rfl, fun r hr => absurd hr (Option.not_mem_none r)⟩
  | dropped => exact ⟨rfl, fun r hr => absurd hr (Option.not_mem_none r)⟩
  | answered => exact ⟨rfl, fun r hr => ⟨_, (Option.mem_some_iff.mp hr).symm⟩⟩

/-- While the link is up, an iteration writes its reply and nothing else. -/
theorem iteration_said (inp : BoardInput) {b : Board} (hb : b.connBroken = false) :
    (iteration inp b).1.uart.said = b.uart.said ++ (iteration inp b).2.reply.getD [] := by
  have hreply : (iteration inp b).2.reply = (b.countIteration.communicate inp.uart).2.2 := rfl
  have hpoll : (b.countIteration.pollLength inp.uart).2.uart.said = b.uart.said := rfl
  rw [iteration_uart, hreply, communicate_of_up (b := b.countIteration) hb, exchange_said, hpoll]

theorem iteration_reply (inp : BoardInput) {b : Board} (hb : b.connBroken = false) :
    (iteration inp b).2.reply.isSome = (iteration inp b).2.accepted.isSome ∧
      ∀ r ∈ (iteration inp b).2.reply, ∃ o : Outdata, r = tagR :: o.serial := by
  have hreply : (iteration inp b).2.reply = (b.countIteration.communicate inp.uart).2.2 := rfl
  rw [hreply, iteration_accepted, communicate_of_up (b := b.countIteration) hb]
  exact exchange_reply _ _ _

end Said

/-! ### Progress through the stream -/

/-- After `dropped` bytes were dropped and `discarded` bytes discarded, the bytes `T` were taken
out of the FIFO and the records `acc` accepted. -/
structure Progress (g : List UInt8) (frames acc : List Indata) (T : List UInt8)
    (dropped discarded : ℕ) : Prop where
  count : T.length = dropped + 9 * acc.length + discarded
  /-- before the first record, only bytes before the first frame are taken -/
  lead : (acc = [] ∧ discarded = 0 ∧ T <+: g) ∨ g.length ≤ dropped
  /-- as long as nothing is discarded, the reader keeps to the frames -/
  kept : discarded = 0 → (acc = [] ∧ T <+: g) ∨ acc <+: frames ∧ T = g ++ framesOf acc

section Progress

variable {g T : List UInt8} {frames acc : List Indata} {dropped discarded : ℕ}

/-- A prefix of the stream that is followed by an `'S'` is not inside the bytes before the first
frame. -/
theorem eq_of_lead {s : UInt8} {rest : List UInt8} (hg : s ∉ g) (hT : T <+: g)
    (h : T ++ s :: rest <+: g ++ framesOf frames) : T = g := by
  obtain ⟨t, rfl⟩ := hT
  cases t with
  | nil => rw [List.append_nil]
  | cons x t =>
    rw [List.append_assoc, List.prefix_append_right_inj, List.cons_append,
      List.cons_prefix_cons] at h
    exact absurd (by simp [h.1]) hg

/-- What stands in the stream behind some of its frames begins with an `'S'`. -/
theorem tag_of_kept {c : UInt8} {rest : List UInt8} (hacc : acc <+: frames)
    (h : g ++ framesOf acc ++ c :: rest <+: g ++ framesOf frames) : c = tagS := by
  obtain ⟨more, rfl⟩ := hacc
  rw [framesOf_append, ← List.append_assoc, List.prefix_append_right_inj] at h
  cases more with
  | nil => exact absurd (List.prefix_nil.mp h) (List.cons_ne_nil _ _)
  | cons f more =>
    rw [framesOf_cons, List.cons_append, List.cons_prefix_cons] at h
    exact h.1

/-- The eight bytes behind that `'S'` are the next record. -/
theorem record_of_kept {p rest : List UInt8} (hp : p.length = 8) (hacc : acc <+: frames)
    (h : g ++ framesOf acc ++ (tagS :: p ++ rest) <+: g ++ framesOf frames) :
    ∃ f, acc ++ [f] <+: frames ∧ p = f.serial := by
  obtain ⟨more, rfl⟩ := hacc
  rw [framesOf_append, ← List.append_assoc g, List.prefix_append_right_inj] at h
  cases more with
  | nil => exact absurd (List.prefix_nil.mp h) (List.cons_ne_nil _ _)
  | cons f more =>
    rw [framesOf_cons, List.cons_append, List.cons_append, List.cons_prefix_cons] at h
    have hpre : p <+: f.serial ++ framesOf more := (List.prefix_append p rest).trans h.2
    have hle : p <+: f.serial := List.prefix_of_prefix_length_le hpre (List.prefix_append _ _)
      (by rw [hp, f.length_serial])
    exact ⟨f, by simp, hle.eq_of_length (by rw [hp, f.length_serial])⟩

/-- A byte is dropped. -/
theorem Progress.drop {c : UInt8} (h : Progress g frames acc T dropped discarded) (hc : c ≠ tagS)
    (hT : T ++ [c] <+: g ++ framesOf frames) :
    Progress g frames acc (T ++ [c]) (dropped + 1) discarded := by
  -- inside the leading bytes there is room for one more, behind them is an `'S'`
  have hinside : T <+: g → T ++ [c] <+: g := by
    rintro ⟨t, rfl⟩
    cases t with
    | nil =>
      rw [List.append_nil] at hT
      exact absurd (tag_of_kept (g := T) List.nil_prefix (by simpa using hT)) hc
    | cons x t =>
      rw [List.append_assoc, List.prefix_append_right_inj, List.cons_append,
        List.cons_prefix_cons] at hT
      rw [hT.1, List.prefix_append_right_inj, List.cons_prefix_cons]
      exact ⟨rfl, List.nil_prefix⟩
  refine ⟨?_, ?_, fun hzero => ?_⟩
  · have := h.count
    rw [List.length_append, List.length_singleton]
    omega
  · rcases h.lead with ⟨hacc, hdis, hpre⟩ | hle
    · exact Or.inl ⟨hacc, hdis, hinside hpre⟩
    · exact Or.inr (hle.trans (Nat.le_succ _))
  · rcases h.kept hzero with ⟨hacc, hpre⟩ | ⟨hacc, rfl⟩
    · exact Or.inl ⟨hacc, hinside hpre⟩
    · exact absurd (tag_of_kept hacc hT) hc

/-- A record is accepted, and its reply discards the bytes `d`. -/
theorem Progress.accept {p d : List UInt8} (h : Progress g frames acc T dropped discarded)
    (hg : tagS ∉ g) (hp : p.length = 8)
    (hT : T ++ (tagS :: p ++ d) <+: g ++ framesOf frames) :
    Progress g frames (acc ++ [Indata.ofSerial p]) (T ++ (tagS :: p ++ d)) dropped
      (discarded + d.length) := by
  refine ⟨?_, Or.inr ?_, fun hzero => Or.inr ?_⟩
  · have := h.count
    simp only [List.length_append, List.length_cons, List.length_nil, hp]
    omega
  · rcases h.lead with ⟨rfl, rfl, hpre⟩ | hle
    · have hTg : T = g := eq_of_lead hg hpre hT
      have := h.count
      rw [← hTg, List.length_nil] at *
      omega
    · exact hle
  · obtain ⟨hdis, hd⟩ : discarded = 0 ∧ d = [] := by
      rw [← List.length_eq_zero_iff]
      omega
    have hkept : acc <+: frames ∧ T = g ++ framesOf acc := by
      rcases h.kept hdis with ⟨rfl, hpre⟩ | hkept
      · exact ⟨List.nil_prefix, by rw [eq_of_lead hg hpre hT, framesOf_nil, List.append_nil]⟩
      · exact hkept
    obtain ⟨hacc, rfl⟩ := hkept
    obtain ⟨f, hnext, rfl⟩ := record_of_kept hp hacc hT
    rw [Indata.ofSerial_serial]
    refine ⟨hnext, ?_⟩
    rw [framesOf_append, hd, List.append_nil, framesOf_cons, framesOf_nil, List.append_nil,
      List.append_assoc]

end Progress

/-! ### Delivery -/

/-- In the first `n` iterations the board accepts the records `frames`, in order and once each,
and what it writes is one reply, an `'R'` and its own record, for each of them. -/
structure Delivered (b₀ : Board) (inp : ℕ → BoardInput) (n : ℕ) (frames : List Indata) : Prop where
  accepted : observed (acceptedAt b₀ inp) n = frames
  answered : ∀ k < n, (replyAt b₀ inp k).isSome = (acceptedAt b₀ inp k).isSome
  replies : ∀ k < n, ∀ r ∈ replyAt b₀ inp k, ∃ o : Outdata, r = tagR :: o.serial
  said : (boardAt b₀ inp n).uart.said = b₀.uart.said ++ (observed (replyAt b₀ inp) n).flatten

/-- No reply of the first `n` iterations is disturbed. -/
def Undisturbed (b₀ : Board) (inp : ℕ → BoardInput) (n : ℕ) : Prop :=
  ∀ k < n, ReplyUndisturbed (inp k).uart ((boardAt b₀ inp k).uart.rx ++ (inp k).uart.atPoll.rxd)

instance (b₀ : Board) (inp : ℕ → BoardInput) (n : ℕ) : Decidable (Undisturbed b₀ inp n) :=
  inferInstanceAs (Decidable (∀ k < n, _))

section Run

variable {b₀ : Board} {inp : ℕ → BoardInput} {g : List UInt8} {frames : List Indata} {n : ℕ}

/-- While the link is up, what the board writes are its replies. -/
theorem said_boardAt (hup : ∀ k < n, (boardAt b₀ inp k).connBroken = false) :
    (boardAt b₀ inp n).uart.said = b₀.uart.said ++ (observed (replyAt b₀ inp) n).flatten := by
  induction n with
  | zero => simp [observed]
  | succ n ih =>
    have hsaid := iteration_said (inp n) (hup n (Nat.lt_succ_self n))
    calc (boardAt b₀ inp (n + 1)).uart.said
        = (boardAt b₀ inp n).uart.said ++ (replyAt b₀ inp n).getD [] := hsaid
      _ = b₀.uart.said ++ ((observed (replyAt b₀ inp) n).flatten ++
            (replyAt b₀ inp n).getD []) := by
          rw [ih fun k hk => hup k (Nat.lt_succ_of_lt hk), List.append_assoc]
      _ = b₀.uart.said ++ (observed (replyAt b₀ inp) (n + 1)).flatten := by
          rw [observed, List.flatten_append]
          cases replyAt b₀ inp n <;> simp

/-- The run lemma: the progress made before iteration `n`. -/
theorem progress_boardAt (hg : tagS ∉ g) (hrx : b₀.uart.rx = [])
    (hheard : (boardAt b₀ inp n).uart.heard = b₀.uart.heard ++ (g ++ framesOf frames))
    (hlost : (boardAt b₀ inp n).uart.lost = b₀.uart.lost)
    (hup : ∀ k < n, (boardAt b₀ inp k).connBroken = false) {m : ℕ} (hm : m ≤ n) :
    ∃ T dropped discarded, b₀.uart.Flow T (boardAt b₀ inp m).uart ∧
      Progress g frames (observed (acceptedAt b₀ inp) m) T dropped discarded ∧
      (discarded = 0 ↔ Undisturbed b₀ inp m) := by
  induction m with
  | zero =>
    exact ⟨[], 0, 0, Flow.refl _, ⟨rfl, Or.inl ⟨rfl, rfl, List.nil_prefix⟩,
      fun _ => Or.inl ⟨rfl, List.nil_prefix⟩⟩, iff_of_true rfl fun k hk => absurd hk (by omega)⟩
  | succ m ih =>
    obtain ⟨T, dropped, discarded, hT, hprog, hdis⟩ := ih (by omega)
    obtain ⟨d, hstep, hd⟩ := boardAt_rxStep (k := m) hm hlost
    have hd := hd (hup m hm)
    -- discarded bytes add up, so there are none exactly when no reply was disturbed
    have hdis' : discarded + d.length = 0 ↔ Undisturbed b₀ inp (m + 1) := by
      rw [Nat.add_eq_zero_iff, List.length_eq_zero_iff, hdis, hd]
      refine ⟨fun h k hk => ?_, fun h => ⟨fun k hk => h k (by omega), h m (by omega)⟩⟩
      rcases Nat.lt_succ_iff_lt_or_eq.mp hk with hlt | rfl
      · exact h.1 k hlt
      · exact h.2
    -- what this iteration takes continues what was taken before
    have hflow' : ∀ {taken}, (boardAt b₀ inp m).uart.Flow taken (boardAt b₀ inp (m + 1)).uart →
        T ++ taken <+: g ++ framesOf frames := fun hflow =>
      taken_prefix_arrived hm hrx hlost hheard (hT.trans hflow)
    rw [observed]
    generalize acceptedAt b₀ inp m = accepted at hstep
    cases hstep with
    | down taken hb hflow => exact absurd (hb.symm.trans (hup m hm)) (by decide)
    | wait hb hflow hlen =>
      refine ⟨T, dropped, discarded, ?_, by simpa using hprog, hdis'⟩
      simpa using hT.trans hflow
    | drop c hb hc hflow =>
      refine ⟨T ++ [c], dropped + 1, discarded, hT.trans hflow, ?_, hdis'⟩
      simpa using hprog.drop hc (hflow' hflow)
    | accept p d hb hp hflow =>
      exact ⟨_, dropped, _, hT.trans hflow, hprog.accept hg hp (hflow' hflow), hdis'⟩

/-- **Delivery.** While the link is up, the host sends bytes that are not `'S'` and then frames,
and nothing is lost in the receive FIFO. Once everything has arrived and less than a frame is
left in the FIFO, the frames have been delivered exactly when no reply was disturbed. -/
theorem delivery_iff (b₀ : Board) (inp : ℕ → BoardInput) (g : List UInt8) (frames : List Indata)
    (n : ℕ) (hg : tagS ∉ g) (hrx : b₀.uart.rx = [])
    (hheard : (boardAt b₀ inp n).uart.heard = b₀.uart.heard ++ (g ++ framesOf frames))
    (hlost : (boardAt b₀ inp n).uart.lost = b₀.uart.lost)
    (hup : ∀ k < n, (boardAt b₀ inp k).connBroken = false)
    (hdone : (boardAt b₀ inp n).uart.rx.length < 9) :
    Delivered b₀ inp n frames ↔ Undisturbed b₀ inp n := by
  obtain ⟨T, dropped, discarded, hT, hprog, hdis⟩ :=
    progress_boardAt hg hrx hheard hlost hup le_rfl
  have hall : g ++ framesOf frames = T ++ (boardAt b₀ inp n).uart.rx := hT.arrived_eq hrx hheard
  have hlen : g.length + 9 * frames.length = T.length + (boardAt b₀ inp n).uart.rx.length := by
    simpa [length_framesOf] using congrArg List.length hall
  have hcount := hprog.count
  rw [← hdis]
  constructor
  · -- discarded bytes are missing from the frames accepted
    rintro ⟨hacc, -⟩
    rw [hacc] at hcount
    rcases hprog.lead with ⟨-, hzero, -⟩ | hlead
    · exact hzero
    · omega
  · intro hzero
    -- all that was taken belongs to accepted frames, and what is left is too short for one
    refine ⟨?_, fun k hk => (iteration_reply (inp k) (hup k hk)).1,
      fun k hk => (iteration_reply (inp k) (hup k hk)).2, said_boardAt hup⟩
    rcases hprog.kept hzero with ⟨hacc, hpre⟩ | ⟨⟨more, hmore⟩, rfl⟩
    · have hle := hpre.length_le
      rw [hacc, List.length_eq_zero_iff.mp (show frames.length = 0 by omega)]
    · rw [← hmore] at hlen ⊢
      have hnil : more = [] := by
        rw [← List.length_eq_zero_iff]
        simp only [List.length_append, length_framesOf] at hlen
        omega
      rw [hnil, List.append_nil]

end Run

/-- A board after start-up and an `'I'`. -/
def linkedBoard : Board := boardAt (boot default default) (feed [[tagI]]) 1

/-- A stray byte and a frame, the frame arriving in two parts: it is delivered. -/
theorem delivery_oneFrame :
    Delivered linkedBoard (feed [[0, tagS], (⟨1, 1, 1, 0, 200⟩ : Indata).serial]) 3
      [⟨1, 1, 1, 0, 200⟩] :=
  (delivery_iff linkedBoard (feed [[0, tagS], (⟨1, 1, 1, 0, 200⟩ : Indata).serial]) [0]
    [⟨1, 1, 1, 0, 200⟩] 3 (by decide) (by decide +kernel) (by decide +kernel) (by decide +kernel)
    (by decide +kernel) (by decide +kernel)).mpr (by decide +kernel)

/-- **A frame that waits behind another is lost.** Of two frames that arrive together the board
accepts the first; its reply takes the second out of the receive FIFO. -/
theorem delivery_fails :
    ¬ ∀ inp g frames n, tagS ∉ g →
      (boardAt linkedBoard inp n).uart.heard = linkedBoard.uart.heard ++ (g ++ framesOf frames) →
      (boardAt linkedBoard inp n).uart.lost = linkedBoard.uart.lost →
      (∀ k < n, (boardAt linkedBoard inp k).connBroken = false) →
      (boardAt linkedBoard inp n).uart.rx.length < 9 → Delivered linkedBoard inp n frames := by
  intro h
  have hdelivered := h (feed [framesOf [⟨1, 1, 1, 0, 200⟩, ⟨1, 1, 1, 0, 100⟩]]) []
    [⟨1, 1, 1, 0, 200⟩, ⟨1, 1, 1, 0, 100⟩] 1 (by decide) (by decide +kernel) (by decide +kernel)
    (by decide +kernel) (by decide +kernel)
  have haccepted : observed (acceptedAt linkedBoard
      (feed [framesOf [⟨1, 1, 1, 0, 200⟩, ⟨1, 1, 1, 0, 100⟩]])) 1 = [⟨1, 1, 1, 0, 200⟩] := by
    decide +kernel
  exact absurd (haccepted.symm.trans hdelivered.accepted) (by decide)

end LegoCar
