import Mathlib
import LegoCar.Wire.HostStream
import LegoCar.Board.Receive

/-!
# Frame integrity

The host's stream is not escaped, so what a board accepts depends on where it starts to read. When
no byte of a record is an `'S'`, and no byte is lost in the receive FIFO, the stream is
self-synchronising (`frame_of_plain`): whatever the board drops — while the link is down, while it
looks for an `'S'`, while it writes — the records it accepts are records of the host, in the order
in which they were sent.

The invariant over a run is that the records accepted so far are among those of messages that lie
wholly within the bytes taken so far.
-/

namespace LegoCar

open Driven Board Uart

/-- The records `acc` belong to messages that were taken out of the receive FIFO. -/
def IntegrityInv (b₀ : Board) (msgs : List HostMsg) (acc : List Indata) (b : Board) : Prop :=
  ∃ T pre, b₀.uart.Flow T b.uart ∧ pre <+: msgs ∧ (streamOf pre).length ≤ T.length ∧
    acc.Sublist (recordsOf pre)

variable {b₀ b b' : Board} {msgs : List HostMsg} {acc : List Indata}

/-- Taking bytes without accepting a record. -/
theorem IntegrityInv.take {taken : List UInt8} (h : IntegrityInv b₀ msgs acc b)
    (hflow : b.uart.Flow taken b'.uart) : IntegrityInv b₀ msgs acc b' := by
  obtain ⟨T, pre, hT, hpre, hlen, hacc⟩ := h
  exact ⟨T ++ taken, pre, hT.trans hflow, hpre, hlen.trans (by simp), hacc⟩

/-- The step of frame integrity. -/
theorem integrityInv_step {o : Option Indata} {d : List UInt8}
    (hplain : ∀ m ∈ msgs, m.Plain) (hstep : RxStep b b' o d) (h : IntegrityInv b₀ msgs acc b)
    (htaken : ∀ T, b₀.uart.Flow T b'.uart → T <+: streamOf msgs) :
    IntegrityInv b₀ msgs (acc ++ o.toList) b' := by
  cases hstep with
  | down taken hb hflow => simpa using h.take hflow
  | wait hb hflow hlen => simpa using h.take hflow
  | drop c hb hc hflow => simpa using h.take hflow
  | accept p d hb hp hflow =>
    obtain ⟨T, pre, hT, hpre, hlen, hacc⟩ := h
    obtain ⟨rest, hrest⟩ := htaken _ (hT.trans hflow)
    -- an `'S'` in a plain stream is the beginning of a frame
    have hstream : T ++ (tagS :: p ++ (d ++ rest)) = streamOf msgs := by
      rw [← hrest]
      simp
    obtain ⟨pre', post, hmsgs, hpre'⟩ := frame_of_plain hplain hp hstream
    have hle : pre <+: pre' := by
      refine Framing.prefix_of_length_le HostMsg.bytes_ne_nil hpre ⟨_, hmsgs.symm⟩ ?_
      exact hlen.trans_eq (congrArg List.length hpre')
    have hsub : (recordsOf pre).Sublist (recordsOf pre') := hle.sublist.filterMap _
    refine ⟨_, pre' ++ [.frame (Indata.ofSerial p)], hT.trans hflow, ⟨post, ?_⟩, ?_, ?_⟩
    · rw [hmsgs, List.append_assoc, List.singleton_append]
    · rw [hpre']
      simp [streamOf, HostMsg.bytes, hp]
    · simpa [recordsOf, HostMsg.record] using (hacc.trans hsub).append_right [Indata.ofSerial p]

/-- **Frame integrity on a plain stream.** From any state with an empty receive FIFO, when the
host's records contain no `'S'` and no byte is lost, every record the board accepts is one the
host sent, its set value is the one applied, and the records accepted are in the order of the
stream. -/
theorem frame_integrity (b₀ : Board) (inp : ℕ → BoardInput) (msgs : List HostMsg) (n : ℕ)
    (hplain : ∀ m ∈ msgs, m.Plain) (hrx : b₀.uart.rx = [])
    (hheard : ∃ arrived, (boardAt b₀ inp n).uart.heard = b₀.uart.heard ++ arrived ∧
      arrived <+: streamOf msgs)
    (hlost : (boardAt b₀ inp n).uart.lost = b₀.uart.lost) :
    (observed (acceptedAt b₀ inp) n).Sublist (recordsOf msgs) ∧
      ∀ k < n, ∀ f, acceptedAt b₀ inp k = some f →
        HostMsg.frame f ∈ msgs ∧ (showsAt b₀ inp k).W = f.W := by
  obtain ⟨arrived, hheard, harrived⟩ := hheard
  -- by induction on the iterations, with the receive step of each
  have hinv : ∀ k ≤ n, IntegrityInv b₀ msgs (observed (acceptedAt b₀ inp) k)
      (boardAt b₀ inp k) := by
    intro k hk
    induction k with
    | zero => exact ⟨[], [], Flow.refl _, List.nil_prefix, le_rfl, List.Sublist.refl _⟩
    | succ k ih =>
      obtain ⟨d, hstep, -⟩ := boardAt_rxStep (k := k) hk hlost
      exact integrityInv_step hplain hstep (ih (by omega)) fun T hT =>
        (taken_prefix_arrived hk hrx hlost hheard hT).trans harrived
  have hsub : (observed (acceptedAt b₀ inp) n).Sublist (recordsOf msgs) := by
    obtain ⟨T, pre, -, hpre, -, hacc⟩ := hinv n le_rfl
    exact hacc.trans (hpre.sublist.filterMap _)
  refine ⟨hsub, fun k hk f hf => ⟨?_, ?_⟩⟩
  · have hmem : f ∈ recordsOf msgs := hsub.subset (mem_observed hk hf)
    obtain ⟨m, hm, hrecord⟩ := List.mem_filterMap.mp hmem
    cases m with
    | init => simp [HostMsg.record] at hrecord
    | frame g => rwa [← Option.some.inj hrecord]
  · have hstep := boardAt_linkStep b₀ inp k
    rw [hf] at hstep
    cases hstep with
    | accept f hb hW => exact (iteration_W _ _).trans hW

/-- The hypotheses are met by an `'I'` and a frame that arrive one after the other. -/
theorem frame_integrity_oneFrame :
    let inp := feed [[tagI], framesOf [⟨1, 1, 1, 0, 200⟩]]
    (observed (acceptedAt (boot default default) inp) 2).Sublist [⟨1, 1, 1, 0, 200⟩] :=
  (frame_integrity (boot default default) (feed [[tagI], framesOf [⟨1, 1, 1, 0, 200⟩]])
    [.init, .frame ⟨1, 1, 1, 0, 200⟩] 2 (by decide) rfl
    ⟨streamOf [.init, .frame ⟨1, 1, 1, 0, 200⟩], by decide +kernel, by simp⟩
    (by decide +kernel)).1

/-- **Both hypotheses are needed.** With an LED pattern that is an `'I'` and a set value that is
an `'S'`, the board connects to the middle of the first of two frames and assembles a record from
the parts of both. And fifteen plain frames at once overrun the receive FIFO, so that the
beginning of the fifteenth is joined to the one sent after it. -/
theorem frame_integrity_fails :
    (¬ ∀ inp msgs n, (boardAt (boot default default) inp n).uart.heard = streamOf msgs →
        (boardAt (boot default default) inp n).uart.lost = 0 →
        ∀ f ∈ observed (acceptedAt (boot default default) inp) n, HostMsg.frame f ∈ msgs) ∧
      ¬ ∀ inp msgs n, (boardAt (boot default default) inp n).uart.heard = streamOf msgs →
        (∀ m ∈ msgs, m.Plain) →
        ∀ f ∈ observed (acceptedAt (boot default default) inp) n, HostMsg.frame f ∈ msgs := by
  constructor
  · intro h
    have hmisread := h (feed [[tagS], [73], [1, 1, 0, 83, 0, 0, 0] ++ framesOf [⟨73, 1, 1, 0, 83⟩]])
      [.frame ⟨73, 1, 1, 0, 83⟩, .frame ⟨73, 1, 1, 0, 83⟩] 9 (by decide +kernel) (by decide +kernel)
      ⟨0, 0, 0, 83, 65865⟩ (by decide +kernel)
    exact absurd hmisread (by decide)
  · intro h
    have hoverrun := h
      (feed [[tagI], framesOf (List.replicate 15 ⟨1, 1, 1, 0, 200⟩), [],
        framesOf [⟨1, 1, 1, 0, 200⟩]])
      (.init :: List.replicate 16 (.frame ⟨1, 1, 1, 0, 200⟩)) 12 (by decide +kernel) (by decide)
      ⟨1, 83, 1, 1, 13107201⟩ (by decide +kernel)
    exact absurd hoverrun (by decide)

end LegoCar
