import MyFuzz.Foundations.Run
import MyFuzz.Scenario.I2cPeer

/-!
# Scenario/I2cBus — a master that waits for the clock

A master drives the bus in pulses.  In a clock it pulls SCL, moves SDA while SCL is low, releases
SCL and holds SDA
until SCL is high; a condition moves SDA while SCL is high.  How often the bus is observed in each
part is open:

    clock:      ▔╲______╱▔  SCL  (low for one observation or more, high when the target lets go)
    condition:  ▔▔▔▔╲▁▁▁▁▁  SDA  (SCL high)

Once SCL is high, the bus is a target and a level that the master pulls or not, and a pulse moves it
in one way
(`Plays.settled`).  So neither the observations nor the cycles that the target stretches the clock matter.
-/

namespace MyFuzz

open Outcome I2cTarget

/-! ## Pulses -/

/-- What a master does next: a clock with SDA pulled or not, or a change of SDA while SCL is high. -/
inductive I2cPulse where
  | clock (pull : Bool)
  | condition (pull : Bool)
  deriving DecidableEq

namespace I2cPeer

/-- Observe the enables of SCL and SDA, one tick after the other. -/
def observeAll (p : I2cPeer) (enables : List (Bool × Bool)) : Except Exn I2cPeer :=
  enables.foldlM (fun p enable => p.observe enable.1.toNat enable.2.toNat) p

/-- **What a master may do for a pulse.** -/
def Plays (p : I2cPeer) : I2cPulse → I2cPeer → Prop
  | .clock pull, q => ∃ (pulls : List Bool) (r : I2cPeer) (n : ℕ),
      p.observeAll ((pulls ++ [pull]).map fun sda => (true, sda)) = .ok r ∧
        r.observeAll (List.replicate (n + 1) (false, pull)) = .ok q ∧ q.sclI = 1
  | .condition pull, q => ∃ n : ℕ, p.observeAll (List.replicate (n + 1) (false, pull)) = .ok q

/-- Pulses with the levels of SDA that the master samples at their ends. -/
inductive PlaysAll : I2cPeer → List I2cPulse → List ℕ → I2cPeer → Prop where
  | nil (p : I2cPeer) : PlaysAll p [] [] p
  | cons {p r q : I2cPeer} {pulse : I2cPulse} {pulses : List I2cPulse} {samples : List ℕ} :
      p.Plays pulse r → PlaysAll r pulses samples q → PlaysAll p (pulse :: pulses) (r.sdaI :: samples) q

/-! ## One observation -/

/-- One observation of binary enables. -/
def drive (p : I2cPeer) (scl sda : Bool) : I2cPeer := (p.pull scl sda).react p.sclI p.sdaI

theorem observe_toNat (p : I2cPeer) (scl sda : Bool) :
    p.observe scl.toNat sda.toNat = .ok (p.drive scl sda) := by
  cases scl <;> cases sda <;> rfl

theorem observeAll_eq (p : I2cPeer) (enables : List (Bool × Bool)) :
    p.observeAll enables = .ok (Run.run (fun p enable => p.drive enable.1 enable.2) p enables) :=
  foldlM_of_ok (fun (enable : Bool × Bool) _ q => observe_toNat q enable.1 enable.2) p

/-! ### Edges -/

section Edges

variable {p : I2cPeer} {oldSda : ℕ}

theorem react_same {oldScl : ℕ} (hscl : p.sclI = oldScl) (hsda : oldScl = 1 → p.sdaI = oldSda) :
    p.react oldScl oldSda = p := by
  unfold react
  rw [if_neg fun h => h.2.2 (hsda h.1).symm, if_neg fun h => ?_, if_neg fun h => ?_]
  · have := h.1.symm.trans (hscl.symm.trans h.2)
    omega
  · have := h.1.symm.trans (hscl.symm.trans h.2)
    omega

theorem react_rise (hscl : p.sclI = 1) : p.react 0 oldSda = { p with target := p.target.rising p.sdaI } := by
  unfold react
  rw [if_neg fun h => absurd h.1 (by decide), if_pos ⟨rfl, hscl⟩]

theorem react_fall (hscl : p.sclI = 0) : p.react 1 oldSda = { p with target := p.target.falling } := by
  have hne : p.sclI ≠ 1 := by omega
  unfold react
  rw [if_neg fun h => hne h.2.1, if_neg fun h => hne h.2, if_pos ⟨rfl, hscl⟩]

theorem react_condition (hscl : p.sclI = 1) (hsda : oldSda ≠ p.sdaI) :
    p.react 1 oldSda = { p with target := if p.sdaI = 0 then p.target.start else p.target.stop } := by
  unfold react
  rw [if_pos ⟨rfl, hscl, hsda⟩]

end Edges

theorem target_pull (p : I2cPeer) (scl sda : Bool) : (p.pull scl sda).target = p.target := by
  unfold pull
  split_ifs <;> rfl

/-- A rising edge leaves SDA alone. -/
theorem sdaLow_rising (t : I2cTarget) (sda : ℕ) : (t.rising sda).sdaLow = t.sdaLow := by
  unfold rising sample receiveAddress receiveData
  cases t.state <;> dsimp only <;> split_ifs <;> rfl

/-- **The target never makes a START or a STOP.**  While SCL is high, what it does on an edge leaves
SDA as the host has driven it. -/
theorem sdaI_drive (p : I2cPeer) (scl sda : Bool) (hhigh : (p.pull scl sda).sclI = 1) :
    (p.drive scl sda).sdaI = (p.pull scl sda).sdaI := by
  set moved := p.pull scl sda with hmoved
  have htarget : moved.target = p.target := target_pull p scl sda
  -- a level that changes is not pulled by the target
  have hreleased (hchange : p.sdaI ≠ moved.sdaI) : moved.target.sdaLow = false := by
    by_contra hlow
    have hlow : moved.target.sdaLow = true := eq_true_of_ne_false hlow
    refine hchange ?_
    unfold sdaI
    rw [← htarget, hlow, Bool.or_true, Bool.or_true]
  unfold drive react
  rw [← hmoved]
  split_ifs with hcondition hsda hrise hfall
  · change busLevel (moved.hostSdaLow || false) = busLevel (moved.hostSdaLow || moved.target.sdaLow)
    rw [hreleased hcondition.2.2]
  · change busLevel (moved.hostSdaLow || false) = busLevel (moved.hostSdaLow || moved.target.sdaLow)
    rw [hreleased hcondition.2.2]
  · change busLevel (moved.hostSdaLow || (moved.target.rising moved.sdaI).sdaLow) = _
    rw [sdaLow_rising]
    rfl
  · omega
  · rfl

end I2cPeer

/-! ## The bus with SCL high -/

/-- The bus with SCL high: the target, and whether the master pulls SDA. -/
structure I2cLine where
  target : I2cTarget
  pulled : Bool
  deriving DecidableEq

namespace I2cLine

/-- The level of SDA. -/
def level (l : I2cLine) : ℕ := busLevel (l.pulled || l.target.sdaLow)

/-- The bus after a rising edge. -/
def risen (t : I2cTarget) (pull : Bool) : I2cLine := ⟨t.rising (busLevel (pull || t.sdaLow)), pull⟩

/-- SDA moves while SCL is high. -/
def condition (l : I2cLine) (pull : Bool) : I2cLine :=
  let moved : I2cLine := ⟨l.target, pull⟩
  if l.level = moved.level then moved
  else if moved.level = 0 then ⟨l.target.start, pull⟩
  else ⟨l.target.stop, pull⟩

/-- **A pulse.** -/
def pulse (l : I2cLine) : I2cPulse → I2cLine
  | .clock pull => risen l.target.falling pull
  | .condition pull => l.condition pull

def play (l : I2cLine) (pulses : List I2cPulse) : I2cLine := Run.run pulse l pulses

/-- The levels of SDA at the end of each pulse. -/
def samples (l : I2cLine) : List I2cPulse → List ℕ
  | [] => []
  | pulse :: pulses => (l.pulse pulse).level :: (l.pulse pulse).samples pulses

end I2cLine

namespace I2cPeer

/-- The bus is high and at rest. -/
structure Settled (p : I2cPeer) (l : I2cLine) : Prop where
  stretch : 0 ≤ p.stretchCycles
  host : p.hostSclLow = false
  scl : p.sclLow = false
  target : p.target = l.target
  sda : p.hostSdaLow = l.pulled

/-- The host pulls SCL. -/
structure Low (p : I2cPeer) (t : I2cTarget) : Prop where
  stretch : 0 ≤ p.stretchCycles
  host : p.hostSclLow = true
  scl : p.sclLow = false
  target : p.target = t

/-- The host has released SCL, and the target pulls it. -/
structure Stretching (p : I2cPeer) (t : I2cTarget) (pull : Bool) : Prop where
  stretch : 0 ≤ p.stretchCycles
  host : p.hostSclLow = false
  scl : p.sclLow = true
  target : p.target = t
  sda : p.hostSdaLow = pull
  left : 1 ≤ p.stretchLeft

variable {p q : I2cPeer} {l : I2cLine} {t : I2cTarget} {pull : Bool}

theorem Settled.sclI (h : p.Settled l) : p.sclI = 1 := by
  unfold I2cPeer.sclI
  rw [h.host, h.scl]
  rfl

theorem Settled.sdaI (h : p.Settled l) : p.sdaI = l.level := by
  unfold I2cPeer.sdaI I2cLine.level
  rw [h.sda, h.target]

/-- The host moves SDA while SCL is high. -/
theorem Settled.moved (h : p.Settled l) (sda : Bool) : (p.pull false sda).Settled ⟨l.target, sda⟩ := by
  have hpull : p.pull false sda = { p with hostSclLow := false, hostSdaLow := sda } := by
    unfold I2cPeer.pull
    rw [if_neg Bool.false_ne_true, if_neg fun hlow => ?_, if_neg fun hlow => ?_]
    · exact Bool.false_ne_true (h.scl.symm.trans hlow)
    · exact Bool.false_ne_true (h.host.symm.trans hlow.1)
  rw [hpull]
  exact ⟨h.stretch, rfl, h.scl, h.target, rfl⟩

theorem Settled.hold (h : p.Settled l) : (p.drive false l.pulled).Settled l := by
  have hmoved := h.moved l.pulled
  have hsame : p.drive false l.pulled = p.pull false l.pulled :=
    react_same (hmoved.sclI.trans h.sclI.symm) fun _ => hmoved.sdaI.trans h.sdaI.symm
  rw [hsame]
  exact hmoved

/-- **SDA moves while SCL is high.** -/
theorem Settled.condition (h : p.Settled l) (pull : Bool) :
    (p.drive false pull).Settled (l.condition pull) := by
  have hmoved := h.moved pull
  unfold I2cLine.condition
  by_cases hsame : l.level = I2cLine.level ⟨l.target, pull⟩
  · have hdrive : p.drive false pull = p.pull false pull :=
      react_same (hmoved.sclI.trans h.sclI.symm) fun _ => (hmoved.sdaI.trans hsame.symm).trans h.sdaI.symm
    rw [if_pos hsame, hdrive]
    exact hmoved
  · have hdrive : p.drive false pull = { p.pull false pull with
        target := if (p.pull false pull).sdaI = 0 then (p.pull false pull).target.start
          else (p.pull false pull).target.stop } := by
      unfold drive
      rw [h.sclI]
      exact react_condition hmoved.sclI (by rw [h.sdaI, hmoved.sdaI]; exact hsame)
    rw [if_neg hsame, hdrive, hmoved.sdaI, hmoved.target]
    split_ifs
    · exact ⟨hmoved.stretch, hmoved.host, hmoved.scl, rfl, hmoved.sda⟩
    · exact ⟨hmoved.stretch, hmoved.host, hmoved.scl, rfl, hmoved.sda⟩

/-! ### SCL low -/

theorem Low.sclI (h : p.Low t) : p.sclI = 0 := by
  unfold I2cPeer.sclI
  rw [h.host]
  rfl

/-- The host pulls SCL, whatever was before. -/
theorem low_pull (hstretch : 0 ≤ p.stretchCycles) (sda : Bool) : (p.pull true sda).Low p.target := by
  unfold I2cPeer.pull
  rw [if_pos rfl]
  exact ⟨hstretch, rfl, rfl, rfl⟩

/-- A bus that the host pulls low is a falling edge. -/
theorem Settled.fall (h : p.Settled l) (sda : Bool) : (p.drive true sda).Low l.target.falling := by
  have hmoved := low_pull h.stretch sda
  unfold drive
  rw [h.sclI, react_fall hmoved.sclI, hmoved.target, h.target]
  exact ⟨hmoved.stretch, hmoved.host, hmoved.scl, rfl⟩

theorem Low.hold (h : p.Low t) (sda : Bool) : (p.drive true sda).Low t := by
  have hmoved := low_pull h.stretch sda
  have hsame : p.drive true sda = p.pull true sda :=
    react_same (hmoved.sclI.trans h.sclI.symm) fun hhigh => by
      rw [h.sclI] at hhigh
      cases hhigh
  rw [hsame, ← h.target]
  exact hmoved

/-! ### SCL released -/

theorem Stretching.sclI (h : p.Stretching t pull) : p.sclI = 0 := by
  unfold I2cPeer.sclI
  rw [h.host, h.scl]
  rfl

/-- SCL was low, and is released by both. -/
theorem settled_risen (hlow : p.sclI = 0) (hmoved : (p.pull false pull).Settled ⟨t, pull⟩) :
    (p.drive false pull).Settled (.risen t pull) := by
  unfold drive
  rw [hlow, react_rise hmoved.sclI, hmoved.sdaI, hmoved.target]
  exact ⟨hmoved.stretch, hmoved.host, hmoved.scl, rfl, hmoved.sda⟩

/-- SCL was low, and is pulled by the target. -/
theorem stretching_drive (hlow : p.sclI = 0) (hmoved : (p.pull false pull).Stretching t pull) :
    p.drive false pull = p.pull false pull :=
  react_same (hmoved.sclI.trans hlow.symm) fun hhigh => by
    rw [hlow] at hhigh
    cases hhigh

/-- **SCL rises at once, or the target stretches it.** -/
theorem Low.release (h : p.Low t) (pull : Bool) :
    (p.drive false pull).Stretching t pull ∨ (p.drive false pull).Settled (.risen t pull) := by
  by_cases hstretch : p.stretchCycles ≠ 0 ∧ p.target.state ≠ .idle
  · have hpull : p.pull false pull = { p with
        hostSclLow := false, hostSdaLow := pull, sclLow := true, stretchLeft := p.stretchCycles } := by
      unfold I2cPeer.pull
      rw [if_neg Bool.false_ne_true, if_pos ⟨h.host, hstretch⟩]
    have hmoved : (p.pull false pull).Stretching t pull := by
      rw [hpull]
      have := h.stretch
      exact ⟨h.stretch, rfl, rfl, h.target, rfl, by change 1 ≤ p.stretchCycles; omega⟩
    rw [stretching_drive h.sclI hmoved]
    exact .inl hmoved
  · have hpull : p.pull false pull = { p with hostSclLow := false, hostSdaLow := pull } := by
      unfold I2cPeer.pull
      rw [if_neg Bool.false_ne_true, if_neg fun hboth => hstretch hboth.2, if_neg fun hlow => ?_]
      exact Bool.false_ne_true (h.scl.symm.trans hlow)
    refine .inr (settled_risen h.sclI ?_)
    rw [hpull]
    exact ⟨h.stretch, rfl, h.scl, h.target, rfl⟩

/-- **The target counts down, and lets go.** -/
theorem Stretching.wait (h : p.Stretching t pull) :
    ((p.drive false pull).Stretching t pull ∧ (p.drive false pull).stretchLeft = p.stretchLeft - 1) ∨
      (p.drive false pull).Settled (.risen t pull) := by
  have hpull : p.pull false pull = { p with
      hostSclLow := false, hostSdaLow := pull, stretchLeft := p.stretchLeft - 1
      sclLow := decide (p.stretchLeft - 1 ≠ 0) } := by
    unfold I2cPeer.pull
    rw [if_neg Bool.false_ne_true, if_neg fun hboth => ?_, if_pos h.scl]
    exact Bool.false_ne_true (h.host.symm.trans hboth.1)
  by_cases hlast : p.stretchLeft - 1 = 0
  · refine .inr (settled_risen h.sclI ?_)
    rw [hpull]
    exact ⟨h.stretch, rfl, decide_eq_false (not_not.2 hlast), h.target, rfl⟩
  · have hmoved : (p.pull false pull).Stretching t pull := by
      rw [hpull]
      have := h.left
      exact ⟨h.stretch, rfl, decide_eq_true hlast, h.target, rfl, by change 1 ≤ p.stretchLeft - 1; omega⟩
    rw [stretching_drive h.sclI hmoved]
    refine .inl ⟨hmoved, ?_⟩
    rw [hpull]

/-! ## Pulses move the bus in one way -/

/-- Observations one after the other. -/
def driveAll (p : I2cPeer) (enables : List (Bool × Bool)) : I2cPeer :=
  Run.run (fun p enable => p.drive enable.1 enable.2) p enables

theorem Low.driveAll (h : p.Low t) (pulls : List Bool) :
    (p.driveAll (pulls.map fun sda => (true, sda))).Low t := by
  induction pulls generalizing p with
  | nil => exact h
  | cons sda pulls ih => exact ih (h.hold sda)

/-- **While SCL is low, the target has seen one falling edge.** -/
theorem Settled.low (h : p.Settled l) (pulls : List Bool) (pull : Bool) :
    (p.driveAll ((pulls ++ [pull]).map fun sda => (true, sda))).Low l.target.falling := by
  cases pulls with
  | nil => exact h.fall pull
  | cons sda pulls => exact (h.fall sda).driveAll (pulls ++ [pull])

theorem Settled.driveAll (h : p.Settled l) (n : ℕ) :
    (p.driveAll (List.replicate n (false, l.pulled))).Settled l := by
  induction n generalizing p with
  | zero => exact h
  | succ n ih => exact ih h.hold

/-- A clock that the target stretches, or that has risen. -/
theorem Stretching.driveAll (h : p.Stretching t pull) (n : ℕ) :
    (p.driveAll (List.replicate n (false, pull))).Stretching t pull ∨
      (p.driveAll (List.replicate n (false, pull))).Settled (.risen t pull) := by
  induction n generalizing p with
  | zero => exact .inl h
  | succ n ih =>
    rcases h.wait with hwait | hrisen
    · exact ih hwait.1
    · exact .inr (hrisen.driveAll n)

/-- **Once SCL is high, the target has seen one rising edge.** -/
theorem Low.high (h : p.Low t) (n : ℕ)
    (hhigh : (p.driveAll (List.replicate (n + 1) (false, pull))).sclI = 1) :
    (p.driveAll (List.replicate (n + 1) (false, pull))).Settled (.risen t pull) := by
  rcases h.release pull with hstretch | hrisen
  · rcases hstretch.driveAll n with hstill | hrisen
    · exact absurd (hstill.sclI.symm.trans hhigh) (by decide)
    · exact hrisen
  · exact hrisen.driveAll n

/-- **A pulse moves the bus in one way.** -/
theorem Settled.plays (h : p.Settled l) {pulse : I2cPulse} (hplays : p.Plays pulse q) :
    q.Settled (l.pulse pulse) := by
  cases pulse with
  | clock pull =>
    obtain ⟨pulls, r, n, hlow, hrelease, hhigh⟩ := hplays
    rw [observeAll_eq] at hlow hrelease
    cases hlow
    cases hrelease
    exact (h.low pulls pull).high n hhigh
  | condition pull =>
    obtain ⟨n, hplays⟩ := hplays
    rw [observeAll_eq] at hplays
    cases hplays
    have hpulled : (l.condition pull).pulled = pull := by
      unfold I2cLine.condition
      dsimp only
      split_ifs <;> rfl
    have hheld := (h.condition pull).driveAll n
    rw [hpulled] at hheld
    exact hheld

/-- **Pulses move the bus in one way, however the master times them and however the target stretches
them.** -/
theorem PlaysAll.settled {pulses : List I2cPulse} {samples : List ℕ} (hplays : PlaysAll p pulses samples q) :
    ∀ {l : I2cLine}, p.Settled l → q.Settled (l.play pulses) ∧ samples = l.samples pulses := by
  induction hplays with
  | nil p => exact fun h => ⟨h, rfl⟩
  | cons hpulse _ ih =>
    intro l h
    have hnext := h.plays hpulse
    obtain ⟨hsettled, hsamples⟩ := ih hnext
    refine ⟨hsettled, ?_⟩
    rw [I2cLine.samples, ← hsamples, hnext.sdaI]

/-! ## A master that waits comes to its end -/

/-- The clock is released after as many observations as are left. -/
theorem Stretching.exists_high (n : ℕ) : ∀ {p : I2cPeer}, p.Stretching t pull → p.stretchLeft = n →
    ∃ m, (p.driveAll (List.replicate m (false, pull))).sclI = 1 := by
  induction n with
  | zero =>
    intro p h hleft
    have := h.left
    omega
  | succ n ih =>
    intro p h hleft
    rcases h.wait with hwait | hrisen
    · obtain ⟨m, hm⟩ := ih hwait.1 (by rw [hwait.2, hleft]; omega)
      exact ⟨m + 1, hm⟩
    · exact ⟨1, hrisen.sclI⟩

theorem Low.exists_high (h : p.Low t) (pull : Bool) :
    ∃ n, (p.driveAll (List.replicate (n + 1) (false, pull))).sclI = 1 := by
  rcases h.release pull with hstretch | hrisen
  · have := hstretch.left
    obtain ⟨m, hm⟩ := hstretch.exists_high (p.drive false pull).stretchLeft.toNat (by omega)
    exact ⟨m, hm⟩
  · exact ⟨0, hrisen.sclI⟩

/-- **Every pulse can be played.** -/
theorem Settled.exists_plays (h : p.Settled l) (pulse : I2cPulse) : ∃ q, p.Plays pulse q := by
  cases pulse with
  | clock pull =>
    obtain ⟨n, hhigh⟩ := (h.low [] pull).exists_high pull
    exact ⟨_, [], _, n, observeAll_eq _ _, observeAll_eq _ _, hhigh⟩
  | condition pull => exact ⟨_, 0, observeAll_eq _ _⟩

theorem Settled.exists_playsAll : ∀ (pulses : List I2cPulse) {p : I2cPeer} {l : I2cLine}, p.Settled l →
    ∃ samples q, PlaysAll p pulses samples q
  | [], p, _, _ => ⟨[], p, .nil p⟩
  | pulse :: pulses, p, l, h => by
    obtain ⟨r, hr⟩ := h.exists_plays pulse
    obtain ⟨samples, q, hq⟩ := Settled.exists_playsAll pulses (h.plays hr)
    exact ⟨_, q, .cons hr hq⟩

end I2cPeer

end MyFuzz
