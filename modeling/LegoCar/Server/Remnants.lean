import Mathlib
import LegoCar.Lib.Numerals
import LegoCar.Server.ParseCommand

/-!
# What is behind a message of the client

The server does not terminate the message of the client: the parser reads on in the bytes that
earlier messages left in the buffer, and behind the buffer, where the terminating zero of a board's
message may have been written. They change what a message does unless the message says everything
itself: it contains the terminating zero, or the scan is settled when the message ends
(`MessageSettled`).

The scan of a command is in one of four phases. A settled phase decides what the command does
(`verdict_foldl_of_settled`), and an unsettled one can be continued in two ways that differ
(`open_of_not_settled`).
-/

namespace LegoCar

open Stdio ExtRat

/-! ### The phases of a command -/

/-- How far a command was read: not even the bracket, in the first number, in the second number
behind the first one, or to its end, with the numbers read. -/
inductive Phase where
  | opening
  | first (n : Numeral)
  | second (l : UInt32) (n : Numeral)
  | ended (values : List UInt32)
deriving DecidableEq

namespace Phase

/-- The scan in a phase. -/
def scan : Phase → Scan
  | opening => ⟨[], .start, commandFormat⟩
  | first n => ⟨[], n, [.float, .literal 44, .float, .literal 93]⟩
  | second l n => ⟨[l], n, [.float, .literal 93]⟩
  | ended values => ⟨values, .start, []⟩

/-- The next character. -/
def next (p : Phase) (c : UInt8) : Phase :=
  match p with
  | opening => if c = 91 then first .start else ended []
  | first n =>
    if n = .start ∧ isSpace c then first .start
    else
      match n.step c with
      | some n' => first n'
      | none =>
        match n.finish with
        | some b => if c = 44 then second b .start else ended [b]
        | none => ended []
  | second l n =>
    if n = .start ∧ isSpace c then second l .start
    else
      match n.step c with
      | some n' => second l n'
      | none =>
        match n.finish with
        | some b => ended [l, b]
        | none => ended [l]
  | ended values => ended values

/-- The speeds of the command, if it ended here. -/
def verdict (p : Phase) : Option (UInt32 × UInt32) := acceptSpeeds p.scan.finish

theorem scan_next (p : Phase) (c : UInt8) : (p.next c).scan = p.scan.step c := by
  cases p with
  | opening =>
    rw [next, Scan.step, scan, commandFormat, Scan.consume]
    split_ifs <;> rfl
  | first n =>
    rw [next, Scan.step, scan, Scan.consume]
    by_cases hspace : n = .start ∧ isSpace c
    · rw [if_pos hspace, if_pos hspace]
      rfl
    · rw [if_neg hspace, if_neg hspace]
      cases n.step c with
      | some n' => rfl
      | none =>
        cases n.finish with
        | none => rfl
        | some b =>
          dsimp only
          rw [Scan.consume]
          split_ifs <;> rfl
  | second l n =>
    rw [next, Scan.step, scan, Scan.consume]
    by_cases hspace : n = .start ∧ isSpace c
    · rw [if_pos hspace, if_pos hspace]
      rfl
    · rw [if_neg hspace, if_neg hspace]
      cases n.step c with
      | some n' => rfl
      | none =>
        cases n.finish with
        | none => rfl
        | some b =>
          dsimp only
          rw [Scan.consume]
          split_ifs <;> rfl
  | ended values => rfl

theorem scan_foldl (w : List UInt8) (p : Phase) :
    (w.foldl next p).scan = w.foldl Scan.step p.scan := by
  induction w generalizing p with
  | nil => rfl
  | cons c w ih => rw [List.foldl_cons, List.foldl_cons, ih, scan_next]

theorem readSpeeds_eq (cmd : List UInt8) : readSpeeds cmd = (cmd.foldl next opening).verdict := by
  rw [readSpeeds, sscanf, verdict, scan_foldl]
  rfl

example : (ascii "[0.5,1]").foldl next opening = ended [0x3F000000, 0x3F800000] := by
  decide +kernel

/-! ### The verdict -/

theorem verdict_ended_two (l b : UInt32) :
    (ended [l, b]).verdict = if InUnit l ∧ InUnit b then some (l, b) else none :=
  rfl

@[simp]
theorem verdict_first (n : Numeral) : (first n).verdict = none := by
  rw [verdict, scan, Scan.finish]
  cases n.finish <;> rfl

theorem verdict_second (l : UInt32) (n : Numeral) :
    (second l n).verdict = n.finish.elim none fun b => (ended [l, b]).verdict := by
  rw [verdict, scan, Scan.finish]
  cases n.finish <;> rfl

/-! ### Settled phases -/

/-- What is read in the next bytes does not matter: the scan is over; the first number cannot enter
the interval from `-1` to `1`; or it is outside the interval and the second number follows, or the
second number cannot enter the interval, or stays what it is. -/
def Settled : Phase → Prop
  | opening => False
  | first n => ∀ r, ¬n.CanEnter r
  | second l n => ¬InUnit l ∨ (∀ r, ¬n.CanEnter r) ∨ ∀ r, n.Fixed r
  | ended _ => True

variable {r : ℕ} {l : UInt32} {n n' : Numeral} {p : Phase}

theorem verdict_of_not_inUnit (h : ¬InUnit l) (n : Numeral) : (second l n).verdict = none := by
  rw [verdict_second]
  cases n.finish with
  | none => rfl
  | some b => exact if_neg fun hunit => h hunit.1

/-- A number that cannot enter the interval is not accepted. -/
theorem verdict_of_not_canEnter (h : ¬n.CanEnter r) (l : UInt32) :
    (second l n).verdict = none := by
  rw [verdict_second]
  cases hfinish : n.finish with
  | none => rfl
  | some b => exact if_neg fun hunit => h (canEnter_of_finish hfinish hunit.2 r)

/-- A number that has not begun can enter the interval. -/
theorem not_start_of_not_canEnter (h : ∀ r, ¬n.CanEnter r) : n ≠ .start := by
  rintro rfl
  exact h 1 le_rfl

theorem settled_first (h : (first n).Settled) (c : UInt8) :
    ((first n).next c).Settled ∧ ((first n).next c).verdict = none := by
  rw [Phase.next, if_neg fun hstart => not_start_of_not_canEnter h hstart.1]
  cases hstep : n.step c with
  | some n' => exact ⟨fun r henter => h (r + 1) (canEnter_of_step hstep henter), verdict_first n'⟩
  | none =>
    cases hfinish : n.finish with
    | none => exact ⟨trivial, rfl⟩
    | some b =>
      dsimp only
      split_ifs
      · -- the second number follows
        exact ⟨Or.inl fun hb => h 0 (canEnter_of_finish hfinish hb 0), rfl⟩
      · exact ⟨trivial, rfl⟩

theorem settled_second (h : (second l n).Settled) {c : UInt8}
    (hstart : ¬(n = .start ∧ isSpace c)) :
    ((second l n).next c).Settled ∧ ((second l n).next c).verdict = (second l n).verdict := by
  rw [Phase.next, if_neg hstart]
  cases hstep : n.step c with
  | some n' =>
    rcases h with hl | hout | hfixed
    · exact ⟨Or.inl hl, by rw [verdict_of_not_inUnit hl, verdict_of_not_inUnit hl]⟩
    · have hout' : ∀ r, ¬n'.CanEnter r := fun r henter =>
        hout (r + 1) (canEnter_of_step hstep henter)
      refine ⟨Or.inr (Or.inl hout'), ?_⟩
      rw [verdict_of_not_canEnter (hout 0), verdict_of_not_canEnter (hout' 0)]
    · refine ⟨Or.inr (Or.inr fun r => ((hfixed (r + 1)).step hstep).1), ?_⟩
      rw [verdict_second, verdict_second, ((hfixed 1).step hstep).2]
  | none =>
    rw [verdict_second]
    cases n.finish <;> exact ⟨trivial, rfl⟩

theorem Settled.next (h : p.Settled) (c : UInt8) :
    (p.next c).Settled ∧ (p.next c).verdict = p.verdict := by
  cases p with
  | opening => exact absurd h not_false
  | first n =>
    rw [verdict_first]
    exact settled_first h c
  | second l n =>
    by_cases hstart : n = .start ∧ isSpace c
    · rw [Phase.next, if_pos hstart]
      obtain ⟨rfl, -⟩ := hstart
      exact ⟨h, rfl⟩
    · exact settled_second h hstart
  | ended values => exact ⟨h, rfl⟩

/-- **A settled phase decides** what the command does. -/
theorem verdict_foldl_of_settled (h : p.Settled) (w : List UInt8) :
    (w.foldl next p).verdict = p.verdict := by
  induction w generalizing p with
  | nil => rfl
  | cons c w ih =>
    obtain ⟨hsettled, hsame⟩ := h.next c
    exact (ih hsettled).trans hsame

/-! ### Unsettled phases -/

/-- The speeds that are stored, if the command ended here. -/
def outcome (p : Phase) : Option (ℚ × ℚ) := p.verdict.map fun (l, r) => (speed l, speed r)

theorem command_eq (text : List UInt8) :
    command text = ((cString text).foldl next opening).outcome := by
  rw [command, readSpeeds_eq]
  rfl

theorem step_start_of_space {c : UInt8} (h : isSpace c = true) : Numeral.start.step c = none := by
  have hmem : c = 32 ∨ 9 ≤ c ∧ c ≤ 13 := of_decide_eq_true h
  have hcases : c = 32 ∨ c = 9 ∨ c = 10 ∨ c = 11 ∨ c = 12 ∨ c = 13 := by
    refine hmem.imp_right fun ⟨hge, hle⟩ => ?_
    have hge' : 9 ≤ c.toNat := hge
    have hle' : c.toNat ≤ 13 := hle
    simp only [← UInt8.toNat_inj, UInt8.reduceToNat]
    omega
  rcases hcases with rfl | rfl | rfl | rfl | rfl | rfl <;> rfl

/-- A character of the number is not skipped. -/
theorem not_skipped {n n' : Numeral} {c : UInt8} (h : n.step c = some n') :
    ¬(n = .start ∧ isSpace c) := by
  rintro ⟨rfl, hspace⟩
  rw [step_start_of_space hspace] at h
  exact absurd h (by simp)

theorem foldl_first {w : List UInt8} {n n' : Numeral} (h : n.run w = some n') :
    w.foldl next (first n) = first n' := by
  induction w generalizing n with
  | nil =>
    obtain rfl := Option.some.inj h
    rfl
  | cons c w ih =>
    obtain ⟨t, hstep, hrun⟩ := Option.bind_eq_some_iff.mp (Numeral.run_cons c w n ▸ h)
    rw [List.foldl_cons, next, if_neg (not_skipped hstep), hstep]
    exact ih hrun

theorem foldl_second {w : List UInt8} {n n' : Numeral} (h : n.run w = some n') (l : UInt32) :
    w.foldl next (second l n) = second l n' := by
  induction w generalizing n with
  | nil =>
    obtain rfl := Option.some.inj h
    rfl
  | cons c w ih =>
    obtain ⟨t, hstep, hrun⟩ := Option.bind_eq_some_iff.mp (Numeral.run_cons c w n ▸ h)
    rw [List.foldl_cons, next, if_neg (not_skipped hstep), hstep]
    exact ih hrun

/-- Two continuations that differ in what they store. -/
def Open (p : Phase) : Prop :=
  ∃ w w' : List UInt8, 0 ∉ w ∧ 0 ∉ w' ∧ (w.foldl next p).outcome ≠ (w'.foldl next p).outcome

theorem outcome_second_of_accepted {b : UInt32} (hl : InUnit l) (h : n.Accepted b) :
    (second l n).outcome = some (speed l, speed b) := by
  rw [outcome, verdict_second, h.finish, Option.elim_some, verdict_ended_two,
    if_pos ⟨hl, h.inUnit⟩]
  rfl

theorem outcome_eq_none (h : p.verdict = none) : p.outcome = none := by
  rw [outcome, h]
  rfl

theorem outcome_second_of_unfinished (h : n.finish = none) (l : UInt32) :
    (second l n).outcome = none :=
  outcome_eq_none (by rw [verdict_second, h]; rfl)

/-- The first number can be completed, and followed by another one. -/
theorem open_first (h : n.CanEnter r) : (first n).Open := by
  obtain ⟨w, n', b, -, hzero, hrun, hacc⟩ := (canEnter_iff n r).mp h
  have hcomma : (first n').next 44 = second b .start := by
    rw [next, if_neg fun hstart => hacc.begun hstart.1, hacc.comma]
    dsimp only
    rw [hacc.finish]
    rfl
  have hfold : (w ++ [44, 48]).foldl next (first n) =
      second b (.mantissa (Mantissa.push { negative := false } 0)) := by
    rw [List.foldl_append, foldl_first hrun, List.foldl_cons, hcomma]
    rfl
  refine ⟨[], w ++ [44, 48], List.not_mem_nil, by simp [hzero], ?_⟩
  rw [hfold, outcome_second_of_accepted hacc.inUnit (accepted_push_zero rfl), List.foldl_nil,
    outcome_eq_none (verdict_first n)]
  simp

/-- The second number is in the interval, and the extreme exponent changes it. -/
theorem open_exponent {m : Mantissa} {down : Bool} {e : ℕ} (hl : InUnit l)
    (hunit : InUnit (m.bits (if down then -e else e)))
    (hfixed : ¬(Numeral.exponent m down e).Fixed r) :
    (second l (.exponent m down e)).Open := by
  have hne : m.bits (if down then -far e r else far e r) ≠ m.bits (if down then -e else e) :=
    fun heq => hfixed ⟨hunit, heq⟩
  refine ⟨[], nines r, List.not_mem_nil, zero_notMem_nines r, ?_⟩
  rw [foldl_second (run_nines m down e r), List.foldl_nil,
    outcome_second_of_accepted hl (accepted_exponent down e hunit)]
  by_cases hfar : InUnit (m.bits (if down then -far e r else far e r))
  · rw [outcome_second_of_accepted hl (accepted_exponent down _ hfar)]
    intro heq
    have hspeed := congrArg Prod.snd (Option.some.inj heq)
    dsimp only at hspeed
    refine hne (signedBits_inj (m.size_nonneg _) (m.size_nonneg _) hfar hunit ?_)
    exact (ofBits_eq_speed hfar).trans
      ((congrArg ExtRat.fin hspeed.symm).trans (ofBits_eq_speed hunit).symm)
  · have hrejected : (second l (.exponent m down (far e r))).verdict = none := by
      rw [verdict_second]
      exact if_neg fun hboth => hfar hboth.2
    rw [outcome_eq_none hrejected]
    simp

/-- The second number can be completed, and it can also be spoiled or changed. -/
theorem open_second {r' : ℕ} (hl : InUnit l) (henter : n.CanEnter r) (hfixed : ¬n.Fixed r') :
    (second l n).Open := by
  obtain ⟨w, n', b, -, hw, hrun, hacc⟩ := (canEnter_iff n r).mp henter
  -- a continuation that is rejected will do
  have hopen : ∀ u : List UInt8, 0 ∉ u →
      (u.foldl next (second l n)).outcome = none → (second l n).Open := by
    intro u hu hrejected
    refine ⟨w, u, hw, hu, ?_⟩
    rw [hrejected, foldl_second hrun, outcome_second_of_accepted hl hacc]
    simp
  have hunfinished : n.finish = none → (second l n).Open := fun hfinish =>
    hopen [] List.not_mem_nil (outcome_second_of_unfinished hfinish l)
  cases n with
  | start => exact hunfinished rfl
  | mantissa m =>
    obtain hcount | hcount := Nat.eq_zero_or_pos m.count
    · exact hunfinished (if_neg (by omega))
    · -- the letter before the exponent asks for more digits
      have hrun' : (Numeral.mantissa m).run [m.expLetter] = some (.expMark m) := by
        rw [Numeral.run_cons, Numeral.step, stepMantissa_expLetter hcount]
        rfl
      refine hopen [m.expLetter] (by simpa using expLetter_ne_zero m) ?_
      rw [foldl_second hrun']
      exact outcome_second_of_unfinished rfl l
  | expMark m => exact hunfinished rfl
  | expSign m down => exact hunfinished rfl
  | exponent m down e =>
    by_cases hunit : InUnit (m.bits (if down then -e else e))
    · exact open_exponent hl hunit hfixed
    · refine hopen [] List.not_mem_nil (outcome_eq_none ?_)
      rw [List.foldl_nil, verdict_second]
      exact if_neg fun hboth => hunit hboth.2
  | word negative w => exact absurd henter not_false

/-- **An unsettled phase is open.** -/
theorem open_of_not_settled (hp : ¬p.Settled) : p.Open := by
  cases p with
  | opening => exact ⟨[], ascii "[0,0", by decide, by decide, by decide +kernel⟩
  | first n =>
    obtain ⟨r, henter⟩ := not_forall_not.mp hp
    exact open_first henter
  | second l n =>
    obtain ⟨hl, hrest⟩ := not_or.mp hp
    obtain ⟨henter, hfixed⟩ := not_or.mp hrest
    obtain ⟨r, henter⟩ := not_forall_not.mp henter
    obtain ⟨r', hfixed⟩ := not_forall.mp hfixed
    exact open_second (not_not.mp hl) henter hfixed
  | ended values => exact absurd trivial hp

end Phase

/-! ### Messages -/

/-- What a command does: whether it is accepted, the car after it, and the reply that is sent. -/
structure CommandEffect where
  accepted : Bool
  car : Car
  reply : List UInt8

/-- What `parse_command` does with the contents of the buffer and of the memory behind it. -/
def commandEffect (cfg : CarConfig) (car : Car) (nano : Fin 4 → NanoBoard)
    (connBoards : Fin 4 → Bool) (buffer behind : List UInt8) : CommandEffect :=
  let r := parseCommand cfg car nano connBoards buffer behind
  ⟨(readSpeeds (cString (buffer ++ behind))).isSome, r.1, r.2.1.take r.2.2.toNat⟩

/-- What a message does depends on its bytes only: it does not matter what the buffer contained
before it was received, nor what is behind the buffer. -/
def RemnantsIgnored (bs : List UInt8) : Prop :=
  ∀ cfg car nano connBoards (old old' behind behind' : List UInt8), old.length = ethFrameLen →
    old'.length = ethFrameLen →
    commandEffect cfg car nano connBoards (bs ++ old.drop bs.length) behind =
      commandEffect cfg car nano connBoards (bs ++ old'.drop bs.length) behind'

/-- A message that says everything itself: it is terminated, or the scan of the command is settled
when it ends. -/
def MessageSettled (bs : List UInt8) : Prop := 0 ∈ bs ∨ (bs.foldl Phase.next .opening).Settled

/-- The effect depends on the speeds that are read. -/
theorem commandEffect_eq {buffer buffer' behind behind' : List UInt8}
    (h : readSpeeds (cString (buffer ++ behind)) = readSpeeds (cString (buffer' ++ behind')))
    (cfg : CarConfig) (car : Car) (nano : Fin 4 → NanoBoard) (connBoards : Fin 4 → Bool) :
    commandEffect cfg car nano connBoards buffer behind =
      commandEffect cfg car nano connBoards buffer' behind' := by
  have htake : ∀ (text old : List UInt8), (writeText text old).take text.length = text :=
    fun text old => List.take_left' rfl
  have htake' : ∀ old, (writeText defaultReply old).take 21 = defaultReply ++ [0] := fun old => rfl
  unfold commandEffect
  dsimp only
  cases hread : readSpeeds (cString (buffer ++ behind)) with
  | none =>
    obtain ⟨old, hparse⟩ : ∃ old, parseCommand cfg car nano connBoards buffer behind =
        (car, writeText defaultReply old, 21) := parseCommand_of_rejected hread
    obtain ⟨old', hparse'⟩ : ∃ old, parseCommand cfg car nano connBoards buffer' behind' =
        (car, writeText defaultReply old, 21) := parseCommand_of_rejected (h.symm.trans hread)
    rw [← h, hread, hparse, hparse']
    have hlen : (21 : ℤ).toNat = 21 := rfl
    dsimp only
    rw [hlen, htake', htake']
  | some p =>
    rw [← h, hread, parseCommand_of_accepted hread,
      parseCommand_of_accepted (h.symm.trans hread)]
    dsimp only
    rw [Int.toNat_natCast, htake, htake]

/-- Equal effects store equal speeds. -/
theorem command_eq_of_effect {buffer buffer' behind behind' : List UInt8} {cfg : CarConfig}
    {car : Car} {nano : Fin 4 → NanoBoard} {connBoards : Fin 4 → Bool}
    (h : commandEffect cfg car nano connBoards buffer behind =
      commandEffect cfg car nano connBoards buffer' behind') :
    command (buffer ++ behind) = command (buffer' ++ behind') := by
  obtain ⟨haccepted, hcar, -⟩ := CommandEffect.mk.inj h
  rw [command, command]
  cases hread : readSpeeds (cString (buffer ++ behind)) with
  | none =>
    cases hread' : readSpeeds (cString (buffer' ++ behind')) with
    | none => rfl
    | some p =>
      rw [hread, hread'] at haccepted
      exact absurd haccepted (by simp)
  | some p =>
    cases hread' : readSpeeds (cString (buffer' ++ behind')) with
    | none =>
      rw [hread, hread'] at haccepted
      exact absurd haccepted (by simp)
    | some p' =>
      rw [parseCommand_of_accepted hread, parseCommand_of_accepted hread'] at hcar
      obtain ⟨hl, hr, -⟩ := Car.mk.inj hcar
      exact congrArg some (Prod.ext hl hr)

theorem remnantsIgnored_of_settled {bs : List UInt8} (h : MessageSettled bs) :
    RemnantsIgnored bs := by
  intro cfg car nano connBoards old old' behind behind' _ _
  refine commandEffect_eq ?_ cfg car nano connBoards
  rw [List.append_assoc, List.append_assoc]
  by_cases hzero : 0 ∈ bs
  · rw [cString_append_of_mem hzero, cString_append_of_mem hzero]
  · have hsettled := h.resolve_left hzero
    rw [cString_append_of_notMem hzero, cString_append_of_notMem hzero, Phase.readSpeeds_eq,
      Phase.readSpeeds_eq, List.foldl_append, List.foldl_append,
      Phase.verdict_foldl_of_settled hsettled, Phase.verdict_foldl_of_settled hsettled]

/-- A remnant that continues a message of `n` bytes with the text `w`, as far as the buffer goes;
the rest of the text is behind it. -/
def remnant (n : ℕ) (w : List UInt8) : List UInt8 :=
  (List.replicate n 0 ++ w ++ List.replicate ethFrameLen 0).take ethFrameLen

theorem length_remnant (n : ℕ) (w : List UInt8) : (remnant n w).length = ethFrameLen := by
  rw [remnant, List.length_take, List.length_append, List.length_replicate]
  exact min_eq_left (Nat.le_add_left _ _)

theorem cString_zeros (k : ℕ) : cString (List.replicate k 0) = [] := by
  cases k <;> rfl

theorem cString_remnant {bs w : List UInt8} (hbs : 0 ∉ bs) (hw : 0 ∉ w) :
    cString (bs ++ (remnant bs.length w).drop bs.length ++ w.drop (ethFrameLen - bs.length)) =
      bs ++ w := by
  set k := ethFrameLen - bs.length
  have hdrop : (remnant bs.length w).drop bs.length =
      w.take k ++ List.replicate (k - w.length) 0 := by
    rw [remnant, List.drop_take, List.append_assoc, List.drop_left' List.length_replicate,
      List.take_append, List.take_replicate, min_eq_left (by omega)]
  rw [hdrop, List.append_assoc, cString_append_of_notMem hbs]
  rcases le_total w.length k with hle | hge
  · -- the text ends in the buffer
    rw [List.take_of_length_le hle, List.drop_of_length_le hle, List.append_nil,
      cString_append_of_notMem hw, cString_zeros, List.append_nil]
  · have hwhole := cString_append_of_notMem hw []
    rw [Nat.sub_eq_zero_of_le hge, List.replicate_zero, List.append_nil, List.take_append_drop]
    rw [List.append_nil] at hwhole
    rw [hwhole]
    exact congrArg (bs ++ ·) (List.append_nil w)

theorem settled_of_remnantsIgnored {bs : List UInt8} (h : RemnantsIgnored bs) :
    MessageSettled bs := by
  by_contra hnot
  obtain ⟨hzero, hunsettled⟩ := not_or.mp hnot
  -- the scan can be continued in two ways
  obtain ⟨w, w', hwzero, hwzero', hne⟩ := Phase.open_of_not_settled hunsettled
  have heffect := h carserverCfg.car ⟨0, 0, fun _ => 0⟩ (fun _ => default) (fun _ => false)
    (remnant bs.length w) (remnant bs.length w') (w.drop (ethFrameLen - bs.length))
    (w'.drop (ethFrameLen - bs.length)) (length_remnant _ _) (length_remnant _ _)
  have hcommand := command_eq_of_effect heffect
  rw [Phase.command_eq, Phase.command_eq, cString_remnant hzero hwzero,
    cString_remnant hzero hwzero', List.foldl_append, List.foldl_append] at hcommand
  exact hne hcommand

/-- **When the remnants of earlier messages do not matter.** What a message does depends on its
bytes only exactly when the message says everything itself. -/
theorem messageIsolation_iff (bs : List UInt8) : RemnantsIgnored bs ↔ MessageSettled bs :=
  ⟨settled_of_remnantsIgnored, remnantsIgnored_of_settled⟩

/-- **Remnants extend a command.** Behind the message `[0.5,1`, the zero byte lets it be accepted,
and the character `0` of an earlier command makes the second number ten, which is rejected. -/
theorem messageIsolation_fails :
    ¬ ∀ bs : List UInt8, 1 ≤ bs.length → bs.length ≤ ethFrameLen → RemnantsIgnored bs := by
  intro h
  have heffect := h (ascii "[0.5,1") (by decide) (by decide) carserverCfg.car ⟨0, 0, fun _ => 0⟩
    (fun _ => default) (fun _ => false) (remnant 6 []) (remnant 6 [48]) [] [] (length_remnant _ _)
    (length_remnant _ _)
  have haccepted := congrArg CommandEffect.accepted heffect
  exact absurd haccepted (by decide +kernel)

end LegoCar
