import Mathlib
import LegoCar.Lib.Driven
import LegoCar.Client.VirtualJoystick

/-!
# The page of the web client

Thirty times a second the page looks at the displacement of the stick. It posts a displacement that
has changed, and one that has not is posted again after thirty ticks, unless it is zero.

There are two kinds of page. The one in `remoter` posts whenever the displacement has changed, and
after every tick its last message has the current displacement (`posted_remoter`). The others wait
for the reply to a message before they post a change, but not before they repeat a displacement; so
while a reply is outstanding they may repeat the displacement of the stick, but never post that it
is back in the middle (`moving_of_waiting`), and after a repetition in that time the next change may
be taken for none. Both kinds are never silent for thirty ticks while the stick is displaced
(`heartbeat`).
-/

namespace LegoCar

namespace Client

/-- The script of the page: the joystick, and its variables. -/
structure Script where
  joystick : VirtualJoystick ℤ
  sent : Bool := true
  dxPrev : ℤ := 0
  dyPrev : ℤ := 0
  n : ℕ := 0

/-- What happens on the page: an event for the joystick, the timer, and a reply with status 200. -/
inductive PageEvent where
  | input (e : Input ℤ)
  | tick
  | reply
deriving DecidableEq

namespace Script

/-- `loadXMLDoc`: the displacement is posted, and a page that waits for the reply notes it. -/
def loadXMLDoc (waits : Bool) (p : Script) : Script × Option (ℤ × ℤ) :=
  (if waits then { p with sent := false } else p, some p.joystick.delta)

/-- The function of `setInterval`. -/
def tick (waits : Bool) (p : Script) : Script × Option (ℤ × ℤ) :=
  let dx := p.joystick.deltaX
  let dy := p.joystick.deltaY
  if p.sent ∧ (dx ≠ p.dxPrev ∨ dy ≠ p.dyPrev) then
    let r := p.loadXMLDoc waits
    ({ r.1 with dxPrev := dx, dyPrev := dy, n := 0 }, r.2)
  else if dx ≠ 0 ∨ dy ≠ 0 then
    let p := { p with n := p.n + 1 }
    if p.n = 30 then
      let r := p.loadXMLDoc waits
      ({ r.1 with n := 0 }, r.2)
    else (p, none)
  else (p, none)

/-- The page handles an event. A page that waits for the reply may post again when it is there. -/
def step (waits : Bool) (e : PageEvent) (p : Script) : Script × Option (ℤ × ℤ) :=
  match e with
  | .input e => ({ p with joystick := p.joystick.handle e }, none)
  | .tick => p.tick waits
  | .reply => (if waits then { p with sent := true } else p, none)

/-- The page when it has been loaded. -/
def opened : Script where
  joystick := .new false none 100 100

variable {waits : Bool} {p : Script} {e : PageEvent}

/-- The displacement that the page takes for the one posted last. -/
def prev (p : Script) : ℤ × ℤ := (p.dxPrev, p.dyPrev)

/-- What a tick does: it posts a change or a repetition, or is silent. -/
inductive Ticked (waits : Bool) (p : Script) : Script × Option (ℤ × ℤ) → Prop where
  | changed (hsent : p.sent = true) (hne : p.joystick.delta ≠ p.prev) :
      Ticked waits p ({ p with
        sent := !waits
        dxPrev := p.joystick.deltaX
        dyPrev := p.joystick.deltaY
        n := 0 }, some p.joystick.delta)
  | repeated (hsame : p.sent = true → p.joystick.delta = p.prev) (hne : p.joystick.delta ≠ 0)
      (hn : p.n = 29) :
      Ticked waits p ({ p with sent := p.sent && !waits, n := 0 }, some p.joystick.delta)
  | counted (hsame : p.sent = true → p.joystick.delta = p.prev) (hne : p.joystick.delta ≠ 0)
      (hn : p.n ≠ 29) : Ticked waits p ({ p with n := p.n + 1 }, none)
  | idle (hsame : p.sent = true → p.joystick.delta = p.prev) (hzero : p.joystick.delta = 0) :
      Ticked waits p (p, none)

theorem ticked (waits : Bool) (p : Script) : Ticked waits p (p.tick waits) := by
  have hchanged : (p.joystick.deltaX ≠ p.dxPrev ∨ p.joystick.deltaY ≠ p.dyPrev) ↔
      p.joystick.delta ≠ p.prev := by
    rw [← not_and_or, not_iff_not]
    exact Prod.mk_inj.symm
  have hdisplaced : (p.joystick.deltaX ≠ 0 ∨ p.joystick.deltaY ≠ 0) ↔ p.joystick.delta ≠ 0 := by
    rw [← not_and_or, not_iff_not]
    exact Prod.mk_eq_zero.symm
  have hsame : ¬(p.sent = true ∧ (p.joystick.deltaX ≠ p.dxPrev ∨ p.joystick.deltaY ≠ p.dyPrev)) →
      p.sent = true → p.joystick.delta = p.prev := by
    intro h hsent
    by_contra hne
    exact h ⟨hsent, hchanged.mpr hne⟩
  unfold tick
  dsimp only
  split_ifs with hpost hne hn
  · have hchange : Ticked waits p _ := .changed hpost.1 (hchanged.mp hpost.2)
    cases waits <;> simpa [loadXMLDoc, hpost.1] using hchange
  · have hrepeat : Ticked waits p _ := .repeated (hsame hpost) (hdisplaced.mp hne) (by omega)
    cases waits <;> simpa [loadXMLDoc] using hrepeat
  · exact .counted (hsame hpost) (hdisplaced.mp hne) (by omega)
  · exact .idle (hsame hpost) (not_not.mp fun h => hne (hdisplaced.mpr h))

/-! ### Runs -/

/-- The page after some events, and the displacements that were posted. -/
def play (waits : Bool) : List PageEvent → Script → Script × List (ℤ × ℤ)
  | [], p => (p, [])
  | e :: es, p =>
    let r := p.step waits e
    let rest := play waits es r.1
    (rest.1, r.2.toList ++ rest.2)

theorem play_append (es es' : List PageEvent) (p : Script) :
    p.play waits (es ++ es') = (((p.play waits es).1.play waits es').1,
      (p.play waits es).2 ++ ((p.play waits es).1.play waits es').2) := by
  induction es generalizing p with
  | nil => rfl
  | cons e es ih => rw [List.cons_append, play, play, ih, List.append_assoc]

/-- **The induction rule**: an invariant of the page and of what has been posted. -/
theorem play_induction {P : Script → List (ℤ × ℤ) → Prop} (h : P p [])
    (hstep : ∀ q posts e, P q posts → P (q.step waits e).1 (posts ++ (q.step waits e).2.toList))
    (es : List PageEvent) : P (p.play waits es).1 (p.play waits es).2 := by
  induction es using List.reverseRecOn with
  | nil => exact h
  | append_singleton es e ih =>
    have hlast : (p.play waits es).1.play waits [e] = (((p.play waits es).1.step waits e).1,
        ((p.play waits es).1.step waits e).2.toList) := by
      rw [play, play, List.append_nil]
    rw [play_append, hlast]
    exact hstep _ _ e ih

/-! ### Reports -/

/-- The page that does not wait remembers what it posted last. -/
structure Reports (p : Script) (posts : List (ℤ × ℤ)) : Prop where
  sent : p.sent = true
  prev : posts.getLast?.getD 0 = p.prev

theorem Reports.tick {posts : List (ℤ × ℤ)} (h : p.Reports posts) :
    (p.tick false).1.Reports (posts ++ (p.tick false).2.toList) ∧
      (posts ++ (p.tick false).2.toList).getLast?.getD 0 = p.joystick.delta := by
  have hticked := ticked false p
  generalize p.tick false = r at hticked ⊢
  have hsilent : posts ++ (none : Option (ℤ × ℤ)).toList = posts := List.append_nil _
  have hposted : ∀ d : ℤ × ℤ, (posts ++ (some d).toList).getLast?.getD 0 = d := by simp
  cases hticked with
  | changed hsent hne => exact ⟨⟨rfl, hposted _⟩, hposted _⟩
  | repeated hsame hne hn =>
    refine ⟨⟨by simp [h.sent], ?_⟩, hposted _⟩
    rw [hposted, hsame h.sent]
    rfl
  | counted hsame hne hn =>
    rw [hsilent]
    exact ⟨⟨h.sent, h.prev⟩, h.prev.trans (hsame h.sent).symm⟩
  | idle hsame hzero =>
    rw [hsilent]
    exact ⟨⟨h.sent, h.prev⟩, h.prev.trans (hsame h.sent).symm⟩

theorem reports_play (es : List PageEvent) :
    (opened.play false es).1.Reports (opened.play false es).2 := by
  refine play_induction (P := Reports) ⟨rfl, rfl⟩ (fun q posts e h => ?_) es
  cases e with
  | input e => exact ⟨h.sent, by rw [step, Option.toList_none, List.append_nil, h.prev]; rfl⟩
  | tick => exact h.tick.1
  | reply => exact ⟨h.sent, by rw [step, Option.toList_none, List.append_nil, h.prev]; rfl⟩

theorem joystick_step (e : PageEvent) (p : Script) :
    (p.step waits e).1.joystick = match e with
      | .input e => p.joystick.handle e
      | _ => p.joystick := by
  cases e with
  | input e => rfl
  | tick =>
    have hticked := ticked waits p
    rw [step]
    generalize p.tick waits = r at hticked ⊢
    cases hticked <;> rfl
  | reply =>
    rw [step]
    split_ifs <;> rfl

/-- A joystick of the page that is not pressed has no displacement. -/
theorem centered_play (es : List PageEvent) :
    (opened.play waits es).1.joystick.Centered := by
  refine play_induction (P := fun p _ => p.joystick.Centered)
    (VirtualJoystick.centered_new none 100 100) (fun q posts e h => ?_) es
  rw [joystick_step]
  cases e with
  | input e => exact h.handle e
  | tick => exact h
  | reply => exact h

theorem last_posted (es : List PageEvent) :
    (opened.play false (es ++ [.tick])).2.getLast?.getD 0 =
      (opened.play false es).1.joystick.delta := by
  have htick : (opened.play false es).1.play false [.tick] =
      (((opened.play false es).1.tick false).1,
        ((opened.play false es).1.tick false).2.toList) := by
    rw [play, play, step, List.append_nil]
  rw [play_append, htick]
  exact (reports_play es).tick.2

/-- **The page in `remoter` reports the stick.** Whatever has happened, after a tick the message
posted last, if any, has the current displacement, which is zero unless the joystick is pressed. -/
theorem posted_remoter (es : List PageEvent) :
    (opened.play false (es ++ [.tick])).2.getLast?.getD 0 =
        (opened.play false es).1.joystick.delta ∧
      ((opened.play false es).1.joystick.pressed = false →
        (opened.play false (es ++ [.tick])).2.getLast?.getD 0 = 0) := by
  refine ⟨last_posted es, fun hfree => ?_⟩
  rw [last_posted]
  exact (centered_play es).released hfree

/-! ### Repetitions -/

/-- The number of ticks at which the stick is displaced. -/
def displacedTicks (waits : Bool) : List PageEvent → Script → ℕ
  | [], _ => 0
  | e :: es, p => (if e = .tick ∧ p.joystick.delta ≠ 0 then 1 else 0) +
      displacedTicks waits es (p.step waits e).1

theorem n_lt_play (waits : Bool) (es : List PageEvent) : (opened.play waits es).1.n < 30 := by
  refine play_induction (P := fun p _ => p.n < 30) (by decide) (fun q _ e h => ?_) es
  cases e with
  | input e => exact h
  | tick =>
    have hticked := ticked waits q
    rw [step]
    generalize q.tick waits = r at hticked ⊢
    cases hticked with
    | changed => exact Nat.zero_lt_succ _
    | repeated => exact Nat.zero_lt_succ _
    | counted hsame hne hn =>
      dsimp only
      omega
    | idle => exact h
  | reply =>
    rw [step]
    split_ifs <;> exact h

/-- While nothing is posted, `n` counts the ticks at which the stick is displaced. -/
theorem n_play (es : List PageEvent) (h : (p.play waits es).2 = []) :
    (p.play waits es).1.n = p.n + displacedTicks waits es p := by
  induction es generalizing p with
  | nil => rfl
  | cons e es ih =>
    rw [play] at h ⊢
    obtain ⟨hnone, hrest⟩ := List.append_eq_nil_iff.mp h
    have hsilent : (p.step waits e).2 = none := by simpa using hnone
    have hn : (p.step waits e).1.n = p.n + if e = .tick ∧ p.joystick.delta ≠ 0 then 1 else 0 := by
      cases e with
      | input e => simp [step]
      | tick =>
        have hticked := ticked waits p
        rw [step] at hsilent ⊢
        generalize p.tick waits = r at hticked hsilent ⊢
        cases hticked with
        | changed => exact absurd hsilent (by simp)
        | repeated => exact absurd hsilent (by simp)
        | counted hsame hne hn => simp [hne]
        | idle hsame hzero => simp [hzero]
      | reply =>
        rw [step]
        split_ifs <;> simp_all
    rw [displacedTicks, ih hrest, hn, Nat.add_assoc]

/-- **No long silence.** A page of either kind, whatever has happened, does not let thirty ticks go
by at which the stick is displaced without posting anything. -/
theorem heartbeat (es es' : List PageEvent)
    (h : ((opened.play waits es).1.play waits es').2 = []) :
    displacedTicks waits es' (opened.play waits es).1 < 30 := by
  have hlt := n_lt_play waits (es ++ es')
  rw [play_append] at hlt
  dsimp only at hlt
  rw [n_play es' h] at hlt
  omega

theorem heartbeat_push :
    displacedTicks false (List.replicate 20 .tick)
      (opened.play false [.input (.mouseDown 0 0), .input (.mouseMove 3 4), .tick]).1 < 30 :=
  heartbeat [.input (.mouseDown 0 0), .input (.mouseMove 3 4), .tick] (List.replicate 20 .tick)
    (by decide)

/-! ### The pages that wait -/

/-- An event other than a reply keeps a page waiting, and posts no zero displacement. -/
theorem step_of_waiting (hsent : p.sent = false) (he : e ≠ .reply) :
    (p.step true e).1.sent = false ∧ ∀ d ∈ (p.step true e).2, d ≠ 0 := by
  cases e with
  | input e => exact ⟨hsent, fun d hd => absurd hd (Option.not_mem_none d)⟩
  | tick =>
    have hticked := ticked true p
    rw [step]
    generalize p.tick true = r at hticked ⊢
    cases hticked with
    | changed hsent' => exact absurd (hsent.symm.trans hsent') (by decide)
    | repeated hsame hne hn =>
      refine ⟨by simp, fun d hd => ?_⟩
      obtain rfl : p.joystick.delta = d := by simpa using hd
      exact hne
    | counted => exact ⟨hsent, fun d hd => absurd hd (Option.not_mem_none d)⟩
    | idle => exact ⟨hsent, fun d hd => absurd hd (Option.not_mem_none d)⟩
  | reply => exact absurd rfl he

/-- **No stop without a reply.** While the reply to a message is outstanding, a page that waits for
it posts nothing but displacements of a stick that is not in the middle. -/
theorem moving_of_waiting {es : List PageEvent} (hsent : p.sent = false) (hes : .reply ∉ es) :
    ∀ d ∈ (p.play true es).2, d ≠ 0 := by
  induction es generalizing p with
  | nil => exact fun d hd => absurd hd List.not_mem_nil
  | cons e es ih =>
    rw [List.mem_cons, not_or] at hes
    obtain ⟨hsent', hposted⟩ := step_of_waiting hsent (Ne.symm hes.1)
    intro d hd
    rw [play, List.mem_append, Option.mem_toList] at hd
    exact hd.elim (hposted d) (ih hsent' hes.2 d)

theorem moving_of_waiting_push :
    let p := (opened.play true [.input (.mouseDown 0 0), .input (.mouseMove 3 4), .tick]).1
    (p.play true (List.replicate 30 .tick)).2 = [(3, 4)] ∧
      ∀ d ∈ (p.play true (List.replicate 30 .tick)).2, d ≠ 0 :=
  ⟨by decide, moving_of_waiting (by decide) (by decide)⟩

/-- While a page waits, it counts the ticks at which the stick is displaced. -/
theorem play_ticks_waiting (hsent : p.sent = false) (hne : p.joystick.delta ≠ 0) {k : ℕ}
    (hk : p.n + k < 30) : p.play true (List.replicate k .tick) = ({ p with n := p.n + k }, []) := by
  induction k generalizing p with
  | zero => rfl
  | succ k ih =>
    have htick : p.step true .tick = ({ p with n := p.n + 1 }, none) := by
      have hticked := ticked true p
      rw [step]
      generalize p.tick true = r at hticked ⊢
      cases hticked with
      | changed hsent' => exact absurd (hsent.symm.trans hsent') (by decide)
      | repeated _ _ hn => omega
      | counted => rfl
      | idle _ hzero => exact absurd hzero hne
    rw [List.replicate_succ, play, htick]
    dsimp only
    rw [ih (p := { p with n := p.n + 1 }) hsent hne (by dsimp only; omega)]
    simp [Nat.add_comm, Nat.add_left_comm]

/-- At the thirtieth of them it repeats the displacement. -/
theorem step_tick_waiting (hsent : p.sent = false) (hne : p.joystick.delta ≠ 0) (hn : p.n = 29) :
    p.step true .tick = ({ p with n := 0 }, some p.joystick.delta) := by
  have hticked := ticked true p
  rw [step]
  generalize p.tick true = r at hticked ⊢
  cases hticked with
  | changed hsent' => exact absurd (hsent.symm.trans hsent') (by decide)
  | repeated => simp [hsent]
  | counted _ _ hn' => exact absurd hn hn'
  | idle _ hzero => exact absurd hzero hne

/-- A page that takes the middle for posted says nothing while the stick is there. -/
theorem play_of_rest {es : List PageEvent} (hes : ∀ e ∈ es, e = .tick ∨ e = .reply)
    (hsent : p.sent = true) (hzero : p.joystick.delta = 0) (hprev : p.prev = 0) :
    p.play true es = (p, []) := by
  induction es generalizing p with
  | nil => rfl
  | cons e es ih =>
    have hstep : p.step true e = (p, none) := by
      obtain rfl | rfl := hes e List.mem_cons_self
      · have hticked := ticked true p
        rw [step]
        generalize p.tick true = r at hticked ⊢
        cases hticked with
        | changed _ hne => exact absurd (hzero.trans hprev.symm) hne
        | repeated _ hne => exact absurd hzero hne
        | counted _ hne => exact absurd hzero hne
        | idle => rfl
      · rw [step, if_pos rfl, ← hsent]
    rw [play, hstep]
    dsimp only
    rw [ih (fun e he => hes e (List.mem_cons_of_mem _ he)) hsent hzero hprev]
    rfl

/-- The stick is pushed and let go, and pushed again before the reply to the second message, so
that the displacement is repeated. -/
def pushTwice (d : ℤ × ℤ) : List PageEvent :=
  [.input (.mouseDown 0 0), .input (.mouseMove d.1 d.2), .tick, .reply, .input .mouseUp, .tick,
    .input (.mouseDown 0 0), .input (.mouseMove d.1 d.2)]

theorem play_pushTwice {d : ℤ × ℤ} (hd : d ≠ 0) :
    let p := (opened.play true (pushTwice d)).1
    p.sent = false ∧ p.n = 0 ∧ p.prev = 0 ∧ p.joystick.delta = d := by
  obtain ⟨x, y⟩ := d
  have hxy : ¬x = 0 ∨ ¬y = 0 := by
    rw [← not_and_or]
    exact fun h => hd (Prod.mk_eq_zero.mpr h)
  have hyx : ¬0 = x ∨ ¬0 = y := hxy.imp (fun h heq => h heq.symm) fun h heq => h heq.symm
  simp [pushTwice, play, step, tick, loadXMLDoc, opened, prev, VirtualJoystick.handle,
    VirtualJoystick.onDown, VirtualJoystick.onMove, VirtualJoystick.onUp, VirtualJoystick.putStick,
    VirtualJoystick.new, VirtualJoystick.delta, VirtualJoystick.deltaX, VirtualJoystick.deltaY, hxy,
    hyx]

/-- **A page that waits may never report that the stick is let go**, although every message is
answered: after some events the stick is in the middle and no reply is outstanding, and as long as
nobody touches it again, the last message posted has the displacement `d`. -/
theorem never_stops {d : ℤ × ℤ} (hd : d ≠ 0) :
    ∃ es, (opened.play true es).1.joystick.pressed = false ∧
      (opened.play true es).1.joystick.delta = 0 ∧ (opened.play true es).1.sent = true ∧
      ∀ es', (∀ e ∈ es', e = .tick ∨ e = .reply) →
        (opened.play true (es ++ es')).2.getLast? = some d := by
  obtain ⟨hsent, hn, hprev, hdelta⟩ := play_pushTwice hd
  set p := (opened.play true (pushTwice d)).1
  have hne : p.joystick.delta ≠ 0 := by rwa [hdelta]
  -- the displacement is repeated, and then the stick is let go and the reply arrives
  have hticks := play_ticks_waiting hsent hne (k := 29) (by omega)
  have hrepeat := step_tick_waiting (p := { p with n := p.n + 29 }) hsent hne
    (by dsimp only; omega)
  let q : Script := { p with joystick := p.joystick.onUp, sent := true, n := 0 }
  have hlet : p.play true (List.replicate 29 .tick ++ [.tick, .input .mouseUp, .reply]) =
      (q, [d]) := by
    rw [play_append, hticks, play, hrepeat, ← hdelta]
    rfl
  have hq : (opened.play true (pushTwice d ++
      (List.replicate 29 .tick ++ [.tick, .input .mouseUp, .reply]))) =
      (q, (opened.play true (pushTwice d)).2 ++ [d]) := by
    rw [play_append, hlet]
  have hcentered : q.joystick.Centered := (centered_play (pushTwice d)).onUp
  have hfree : q.joystick.pressed = false := VirtualJoystick.pressed_onUp _
  refine ⟨pushTwice d ++ (List.replicate 29 .tick ++ [.tick, .input .mouseUp, .reply]),
    ?_, ?_, ?_, fun es' hes' => ?_⟩
  · rw [hq]
    exact hfree
  · rw [hq]
    exact hcentered.released hfree
  · rw [hq]
  · rw [play_append, hq, play_of_rest hes' rfl (hcentered.released hfree) hprev, List.append_nil,
      List.getLast?_append, List.getLast?_singleton, Option.some_or]

theorem never_stops_right :
    ∃ es, (opened.play true es).1.joystick.pressed = false ∧
      (opened.play true es).1.joystick.delta = 0 ∧ (opened.play true es).1.sent = true ∧
      ∀ es', (∀ e ∈ es', e = .tick ∨ e = .reply) →
        (opened.play true (es ++ es')).2.getLast? = some (100, 0) :=
  never_stops (d := (100, 0)) (by decide)

end Script

end Client

end LegoCar
